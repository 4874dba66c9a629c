import FanGateway.Stm32.Snapshot

/-!
# The areas of the packet

Three tasks store to one array. The client stores the header when it starts, a poll stores
the block of one slave, and a round of the analog task stores one sample of each channel,
at an index that starts over after 250 rounds. The stores of the client and of the analog
task may come between each other's and between polls, of which each runs with interrupts
off.

Every task keeps to an area of its own, and the areas behind the header are as long as the
header says.
-/

namespace FanGateway.Stm32

open Lib Modbus

/-! ## The tasks -/

/-- The stores of `tcp_client_thread` before its loop. -/
def headerStores : List (ℕ × UInt8) :=
  [(0, 0x44), (1, 0x41), (2, 0x54), (3, 0x41), (4, 0x04), (5, 0x0E)]

/-- The stores of one round of `adc_task`. -/
def adcStores (m : ℕ) (ain : UInt16 × UInt16) : List (ℕ × UInt8) :=
  [(2 * m + 44, hi ain.1), (2 * m + 45, low ain.1), (2 * m + 544, hi ain.2),
    (2 * m + 545, low ain.2)]

inductive Task
  | client
  | modbus
  | adc
  deriving DecidableEq

/-- The packet with what the tasks have still to store, and what they have stored. -/
structure Filler where
  g : Globals
  /-- The counter of `adc_task`. -/
  m : ℕ
  /-- Written by `Get_Adc` for `adc_task` only, so a round stores what it was given. -/
  ainBuff : UInt16 × UInt16
  /-- What is left of the round of `adc_task`; nothing before `Get_Adc`. -/
  adcPending : List (ℕ × UInt8)
  headerPending : List (ℕ × UInt8)
  /-- The samples of the rounds that are complete. -/
  rounds : List (UInt16 × UInt16)
  /-- Every store with the task that made it. -/
  writes : List (Task × ℕ)

inductive FillEvent
  /-- The client makes its next store. -/
  | header
  /-- A poll finds something in `receBuf`. -/
  | poll (receBuf : Buffer UInt8 100)
  /-- `Get_Adc` puts samples into `ain_buff`. -/
  | getAdc (ain : UInt16 × UInt16)
  /-- `adc_task` makes its next store. -/
  | adc

namespace Filler

def buf (s : Filler) : Traced UInt8 1044 := s.g.tcpClientSendbuf

/-- A task leaves other globals. Its stores are the positions that are new. -/
def become (task : Task) (g : Globals) (s : Filler) : Filler :=
  { s with
    g
    writes := s.writes ++ (g.tcpClientSendbuf.trace.drop s.buf.trace.length).map (task, ·) }

def store (task : Task) (p : ℕ × UInt8) (s : Filler) : Filler :=
  s.become task { s.g with tcpClientSendbuf := s.buf.store p.1 p.2 }

/-- A round of `adc_task` is over. -/
def endRound (s : Filler) : Filler :=
  { s with
    m := if s.m + 1 = 250 then 0 else s.m + 1
    rounds := s.rounds ++ [s.ainBuff] }

def step (s : Filler) : FillEvent → Option Filler
  | .header =>
    match s.headerPending with
    | [] => none
    | p :: rest => some { s.store .client p with headerPending := rest }
  | .poll receBuf => some (s.become .modbus (modbusRtu { s.g with receBuf }))
  | .getAdc ain =>
    if s.adcPending = [] then some { s with ainBuff := ain, adcPending := adcStores s.m ain }
    else none
  | .adc =>
    match s.adcPending with
    | [] => none
    | p :: rest =>
      let s := { s.store .adc p with adcPending := rest }
      some (if rest = [] then s.endRound else s)

end Filler

def filling : Machine Filler FillEvent where
  init := ⟨boot, 0, (0, 0), [], headerStores, [], []⟩
  step := Filler.step

/-! ## The areas -/

namespace Task

/-- The area of a task. -/
def Owns : Task → ℕ → Prop
  | .client, i => i < 6
  | .modbus, i => 6 ≤ i ∧ i < 44
  | .adc, i => 44 ≤ i ∧ i < 1044

theorem Owns.lt {task : Task} {i : ℕ} (h : task.Owns i) : i < 1044 := by
  cases task <;> simp only [Owns] at h <;> omega

theorem Owns.eq {task other : Task} {i : ℕ} (h : task.Owns i) (h' : other.Owns i) :
    task = other := by
  cases task <;> cases other <;> simp only [Owns] at h h' <;> first | rfl | omega

end Task

/-- The bytes of some samples, high byte first. -/
def bigEndian (samples : List UInt16) : List UInt8 := samples.flatMap fun n => [hi n, low n]

/-- The header stays as it is stored, every store goes to the area of its task and of no other,
after 250 rounds the samples stand in the packet in order, and the areas behind the header are
as long as it says. -/
structure Filler.LaidOut (s : Filler) : Prop where
  header : ∀ p ∈ headerStores, p ∉ s.headerPending → s.buf.peek p.1 = p.2
  trace_eq : s.buf.trace = s.writes.map Prod.snd
  areas : ∀ w ∈ s.writes, w.2 < 1044 ∧ ∀ task : Task, task.Owns w.2 ↔ task = w.1
  batch : ∀ before batch, s.adcPending = [] → s.rounds = before ++ batch →
    before.length % 250 = 0 → batch.length = 250 →
      s.buf.cells.slice 44 500 = bigEndian (batch.map Prod.fst) ∧
        s.buf.cells.slice 544 500 = bigEndian (batch.map Prod.snd)
  length : s.headerPending = [] → ∀ i, Task.modbus.Owns i ∨ Task.adc.Owns i ↔
    6 ≤ i ∧ i < 6 + (Crc.word (s.buf.peek 4) (s.buf.peek 5)).toNat

/-! ## Stored values -/

/-- The buffer holds some values at their positions. -/
def Stored (ps : List (ℕ × UInt8)) (b : Traced UInt8 1044) : Prop :=
  ∀ p ∈ ps, b.peek p.1 = p.2

section Stored

variable {b b' : Traced UInt8 1044} {ps : List (ℕ × UInt8)} {p : ℕ × UInt8}

/-- Stores elsewhere leave them alone. -/
theorem Stored.of_stores {positions : List ℕ} (h : Stored ps b) (hstores : Stores positions b b')
    (hother : ∀ p ∈ ps, p.1 ∉ positions) : Stored ps b' := by
  intro p hp
  rw [hstores.rest p.1 (hother p hp)]
  exact h p hp

/-- The next value of a list is stored behind the others. -/
theorem Stored.next {done rest : List (ℕ × UInt8)} (h : Stored done b)
    (hsplit : ps = done ++ p :: rest) (hnodup : (ps.map Prod.fst).Nodup) (hlt : p.1 < 1044) :
    Stored (done ++ [p]) (b.store p.1 p.2) := by
  rw [hsplit, List.map_append, List.map_cons, List.nodup_append] at hnodup
  intro q hq
  rcases List.mem_append.mp hq with hq | hq
  · have hne : q.1 ≠ p.1 :=
      hnodup.2.2 q.1 (List.mem_map_of_mem hq) p.1 List.mem_cons_self
    exact (Buffer.peek_poke_ne hne).trans (h q hq)
  · obtain rfl := List.mem_singleton.mp hq
    exact Buffer.peek_poke_self hlt

/-- The stores of one task leave alone what another has stored. -/
theorem Stored.of_owner {positions : List ℕ} {task other : Task} (h : Stored ps b)
    (hstores : Stores positions b b') (hps : ∀ p ∈ ps, other.Owns p.1)
    (hpositions : ∀ i ∈ positions, task.Owns i) (hne : task ≠ other) : Stored ps b' :=
  h.of_stores hstores fun p hp hmem => hne ((hpositions p.1 hmem).eq (hps p hp))

end Stored

theorem owns_headerStores : ∀ p ∈ headerStores, Task.client.Owns p.1 := by
  simp [headerStores, Task.Owns]

theorem nodup_headerStores : (headerStores.map Prod.fst).Nodup := by decide

section AdcStores

variable {m i : ℕ} {ain ain' : UInt16 × UInt16} {p q : ℕ × UInt8}

theorem owns_adcStores (hm : m < 250) : ∀ p ∈ adcStores m ain, Task.adc.Owns p.1 := by
  simp only [adcStores, List.forall_mem_cons, Task.Owns]
  refine ⟨⟨by omega, by omega⟩, ⟨by omega, by omega⟩, ⟨by omega, by omega⟩, ⟨by omega, by omega⟩,
    fun _ h => absurd h List.not_mem_nil⟩

theorem nodup_adcStores : ((adcStores m ain).map Prod.fst).Nodup := by
  simp only [adcStores, List.map_cons, List.map_nil, List.nodup_cons, List.mem_cons,
    List.not_mem_nil, or_false, not_false_eq_true, List.nodup_nil, and_true]
  omega

/-- A round leaves the sample of each channel in its two bytes. -/
theorem peek_of_adcStores {b : Traced UInt8 1044} (h : Stored (adcStores m ain) b) :
    (b.peek (2 * m + 44) = hi ain.1 ∧ b.peek (2 * m + 45) = low ain.1) ∧
      b.peek (2 * m + 544) = hi ain.2 ∧ b.peek (2 * m + 545) = low ain.2 := by
  simp only [Stored, adcStores, List.forall_mem_cons] at h
  exact ⟨⟨h.1, h.2.1⟩, h.2.2.1, h.2.2.2.1⟩

/-- Two rounds of a batch store to different positions. -/
theorem ne_of_adcStores (hm : m < 250) (hi : i < 250) (hne : m ≠ i) (hp : p ∈ adcStores m ain)
    (hq : q ∈ adcStores i ain') : p.1 ≠ q.1 := by
  simp only [adcStores, List.mem_cons, List.not_mem_nil, or_false] at hp hq
  rcases hp with rfl | rfl | rfl | rfl <;> rcases hq with rfl | rfl | rfl | rfl <;>
    simp only <;> omega

end AdcStores

/-! ## Every run -/

namespace Filler

/-- What holds after every store. -/
structure Inv (s : Filler) : Prop where
  header : ∃ done, headerStores = done ++ s.headerPending ∧ Stored done s.buf
  trace_eq : s.buf.trace = s.writes.map Prod.snd
  owns : ∀ w ∈ s.writes, w.1.Owns w.2
  m_eq : s.m = s.rounds.length % 250
  /-- The beginning of a round has been stored. -/
  round : s.adcPending = [] ∨
    ∃ done, adcStores s.m s.ainBuff = done ++ s.adcPending ∧ Stored done s.buf
  /-- Of the last 250 rounds the samples stand in the packet, but for the one whose place the
  round in progress takes. -/
  placed : ∀ k ain, s.rounds[k]? = some ain →
    s.rounds.length + (if s.adcPending = [] then 0 else 1) ≤ k + 250 →
      Stored (adcStores (k % 250) ain) s.buf

section Steps

variable {s t : Filler} {g : Globals} {task : Task} {positions : List ℕ}

theorem inv_init : filling.init.Inv where
  header := ⟨[], rfl, fun _ hp => absurd hp List.not_mem_nil⟩
  trace_eq := rfl
  owns _ hw := absurd hw List.not_mem_nil
  m_eq := rfl
  round := .inl rfl
  placed _ _ h := absurd h (by simp [filling])

theorem Inv.m_lt (h : s.Inv) : s.m < 250 := by
  rw [h.m_eq]
  exact Nat.mod_lt _ (by decide)

theorem writes_become (hstores : Stores positions s.buf g.tcpClientSendbuf) :
    (s.become task g).writes = s.writes ++ positions.map (task, ·) := by
  rw [become, hstores.trace, List.drop_left]

/-- A task that keeps to its area. -/
theorem Inv.writes_become (h : s.Inv) (hstores : Stores positions s.buf g.tcpClientSendbuf)
    (hpositions : ∀ i ∈ positions, task.Owns i) :
    (s.become task g).buf.trace = (s.become task g).writes.map Prod.snd ∧
      ∀ w ∈ (s.become task g).writes, w.1.Owns w.2 := by
  rw [Filler.writes_become hstores]
  constructor
  · rw [List.map_append, List.map_map, ← h.trace_eq]
    exact hstores.trace.trans (congrArg _ (List.map_id positions).symm)
  · intro w hw
    rcases List.mem_append.mp hw with hw | hw
    · exact h.owns w hw
    · obtain ⟨i, hi, rfl⟩ := List.mem_map.mp hw
      exact hpositions i hi

theorem Inv.writes_store (h : s.Inv) {p : ℕ × UInt8} (howns : task.Owns p.1) :
    (s.store task p).buf.trace = (s.store task p).writes.map Prod.snd ∧
      ∀ w ∈ (s.store task p).writes, w.1.Owns w.2 :=
  h.writes_become stores_store (List.forall_mem_singleton.mpr howns)

theorem Inv.owns_done (h : s.Inv) {done : List (ℕ × UInt8)}
    (hdone : adcStores s.m s.ainBuff = done ++ s.adcPending) : ∀ p ∈ done, Task.adc.Owns p.1 :=
  fun p hp => owns_adcStores h.m_lt p (hdone ▸ List.mem_append_left _ hp)

/-- What a task other than the client has stored leaves the header alone. -/
theorem Inv.header_of_owner {b : Traced UInt8 1044} (h : s.Inv)
    (hstores : Stores positions s.buf b) (hpositions : ∀ i ∈ positions, task.Owns i)
    (hne : task ≠ .client) :
    ∃ done, headerStores = done ++ s.headerPending ∧ Stored done b := by
  obtain ⟨done, hsplit, hdone⟩ := h.header
  have howns : ∀ p ∈ done, Task.client.Owns p.1 := fun p hp =>
    owns_headerStores p (hsplit ▸ List.mem_append_left _ hp)
  exact ⟨done, hsplit, hdone.of_owner hstores howns hpositions hne⟩

/-- What a task other than the analog task has stored leaves the samples alone. -/
theorem Inv.samples_of_owner {b : Traced UInt8 1044} (h : s.Inv)
    (hstores : Stores positions s.buf b) (hpositions : ∀ i ∈ positions, task.Owns i)
    (hne : task ≠ .adc) :
    (s.adcPending = [] ∨
      ∃ done, adcStores s.m s.ainBuff = done ++ s.adcPending ∧ Stored done b) ∧
    ∀ k ain, s.rounds[k]? = some ain →
      s.rounds.length + (if s.adcPending = [] then 0 else 1) ≤ k + 250 →
        Stored (adcStores (k % 250) ain) b := by
  constructor
  · refine h.round.imp_right ?_
    rintro ⟨done, hsplit, hdone⟩
    exact ⟨done, hsplit, hdone.of_owner hstores (h.owns_done hsplit) hpositions hne⟩
  · intro k ain hk hle
    have howns : ∀ p ∈ adcStores (k % 250) ain, Task.adc.Owns p.1 :=
      owns_adcStores (Nat.mod_lt _ (by decide))
    exact (h.placed k ain hk hle).of_owner hstores howns hpositions hne

theorem Inv.poll (h : s.Inv) (receBuf : Buffer UInt8 100) :
    (s.become .modbus (modbusRtu { s.g with receBuf })).Inv := by
  obtain ⟨positions, hstores, hblock⟩ := stores_modbusRtu_block { s.g with receBuf }
  have hpositions : ∀ i ∈ positions, Task.modbus.Owns i := by
    rcases hblock with rfl | ⟨k, rfl⟩
    · exact fun i hi => absurd hi List.not_mem_nil
    · intro i hi
      have hrange := List.mem_range'_1.mp hi
      cases k <;> simp only [Slave.start, Slave.size, Task.Owns] at hrange ⊢ <;> omega
  have hwrites := h.writes_become hstores hpositions
  have hsamples := h.samples_of_owner hstores hpositions (by decide)
  exact ⟨h.header_of_owner hstores hpositions (by decide), hwrites.1, hwrites.2, h.m_eq,
    hsamples.1, hsamples.2⟩

theorem Inv.storeHeader (h : s.Inv) {p : ℕ × UInt8} {rest : List (ℕ × UInt8)}
    (hpending : s.headerPending = p :: rest) :
    Inv { s.store .client p with headerPending := rest } := by
  obtain ⟨done, hsplit, hdone⟩ := h.header
  rw [hpending] at hsplit
  have howns : Task.client.Owns p.1 :=
    owns_headerStores p (hsplit ▸ List.mem_append_right _ List.mem_cons_self)
  have hpositions : ∀ i ∈ [p.1], Task.client.Owns i := List.forall_mem_singleton.mpr howns
  have hstores : Stores [p.1] s.buf (s.buf.store p.1 p.2) := stores_store
  have hwrites := h.writes_store howns
  have hsamples := h.samples_of_owner hstores hpositions (by decide)
  refine ⟨⟨done ++ [p], ?_, hdone.next hsplit nodup_headerStores howns.lt⟩, hwrites.1, hwrites.2,
    h.m_eq, hsamples.1, hsamples.2⟩
  rw [hsplit, List.append_assoc]
  rfl

theorem Inv.getAdc (h : s.Inv) (ain : UInt16 × UInt16) (hpending : s.adcPending = []) :
    Inv { s with ainBuff := ain, adcPending := adcStores s.m ain } := by
  refine ⟨h.header, h.trace_eq, h.owns, h.m_eq,
    .inr ⟨[], rfl, fun _ hp => absurd hp List.not_mem_nil⟩, fun k ain' hk hle => ?_⟩
  have hstarted : adcStores s.m ain ≠ [] := List.cons_ne_nil _ _
  dsimp only at hle
  rw [if_neg hstarted] at hle
  refine h.placed k ain' hk ?_
  rw [if_pos hpending]
  omega

/-- The rounds but for the one whose place is taken keep their samples. -/
theorem Inv.placed_store (h : s.Inv) {p : ℕ × UInt8} (hp : p ∈ adcStores s.m s.ainBuff)
    (hpending : s.adcPending ≠ []) (k : ℕ) (ain : UInt16 × UInt16)
    (hk : s.rounds[k]? = some ain) (hle : s.rounds.length + 1 ≤ k + 250) :
    Stored (adcStores (k % 250) ain) (s.buf.store p.1 p.2) := by
  have hlt : k < s.rounds.length := (List.getElem?_eq_some_iff.mp hk).1
  have hm := h.m_lt
  have hplaced := h.placed k ain hk (by rw [if_neg hpending]; exact hle)
  have hne : k % 250 ≠ s.m := by
    rw [h.m_eq]
    omega
  refine hplaced.of_stores stores_store fun q hq hmem => ?_
  exact ne_of_adcStores (Nat.mod_lt _ (by decide)) hm hne hq hp (List.mem_singleton.mp hmem)

theorem Inv.storeAdc (h : s.Inv) {p : ℕ × UInt8} {rest : List (ℕ × UInt8)}
    (hpending : s.adcPending = p :: rest) :
    Inv (if rest = [] then endRound { s.store .adc p with adcPending := rest }
      else { s.store .adc p with adcPending := rest }) := by
  have hstarted : s.adcPending ≠ [] := by
    rw [hpending]
    exact List.cons_ne_nil p rest
  obtain ⟨done, hsplit, hdone⟩ := h.round.resolve_left hstarted
  rw [hpending] at hsplit
  have hp : p ∈ adcStores s.m s.ainBuff := hsplit ▸ List.mem_append_right _ List.mem_cons_self
  have howns := owns_adcStores h.m_lt p hp
  have hpositions : ∀ i ∈ [p.1], Task.adc.Owns i := List.forall_mem_singleton.mpr howns
  have hstores : Stores [p.1] s.buf (s.buf.store p.1 p.2) := stores_store
  have hwrites := h.writes_store howns
  have hheader := h.header_of_owner hstores hpositions (by decide)
  have hnext := hdone.next hsplit nodup_adcStores howns.lt
  have hplaced := h.placed_store hp hstarted
  split_ifs with hrest
  · -- the last store of the round; its sample is in place now
    have hm : (if s.m + 1 = 250 then 0 else s.m + 1) = (s.rounds ++ [s.ainBuff]).length % 250 := by
      have hm_eq := h.m_eq
      rw [List.length_append, List.length_singleton]
      split_ifs <;> omega
    refine ⟨hheader, hwrites.1, hwrites.2, hm, .inl hrest, fun k ain hk hle => ?_⟩
    change (s.rounds ++ [s.ainBuff])[k]? = some ain at hk
    change (s.rounds ++ [s.ainBuff]).length + (if rest = [] then 0 else 1) ≤ k + 250 at hle
    rw [if_pos hrest, List.length_append, List.length_singleton] at hle
    by_cases hold : k < s.rounds.length
    · rw [List.getElem?_append_left hold] at hk
      exact hplaced k ain hk hle
    · have hlast : k = s.rounds.length := by
        have hlt := (List.getElem?_eq_some_iff.mp hk).1
        rw [List.length_append, List.length_singleton] at hlt
        omega
      rw [hlast, List.getElem?_concat_length, Option.some.injEq] at hk
      rw [hlast, ← h.m_eq, ← hk, hsplit, hrest]
      exact hnext
  · refine ⟨hheader, hwrites.1, hwrites.2, h.m_eq, .inr ⟨done ++ [p], ?_, hnext⟩,
      fun k ain hk hle => hplaced k ain hk ?_⟩
    · rw [List.append_assoc]
      exact hsplit
    · change s.rounds.length + (if rest = [] then 0 else 1) ≤ k + 250 at hle
      rwa [if_neg hrest] at hle

theorem Inv.step (h : s.Inv) {e : FillEvent} (hstep : s.step e = some t) : t.Inv := by
  cases e with
  | header =>
    rw [Filler.step] at hstep
    split at hstep
    · cases hstep
    · next p rest hpending =>
      cases hstep
      exact h.storeHeader hpending
  | poll receBuf =>
    cases hstep
    exact h.poll receBuf
  | getAdc ain =>
    simp only [Filler.step, Option.ite_none_right_eq_some, Option.some.injEq] at hstep
    obtain ⟨hpending, rfl⟩ := hstep
    exact h.getAdc ain hpending
  | adc =>
    rw [Filler.step] at hstep
    split at hstep
    · cases hstep
    · next p rest hpending =>
      cases hstep
      exact h.storeAdc hpending

end Steps

section Batch

variable {s : Filler} {b : Traced UInt8 1044} {start : ℕ} {samples : List UInt16}

/-- Samples that stand one behind the other. -/
theorem slice_eq_bigEndian
    (h : ∀ i n, samples[i]? = some n →
      b.peek (2 * i + start) = hi n ∧ b.peek (2 * i + (start + 1)) = low n) :
    b.cells.slice start (2 * samples.length) = bigEndian samples := by
  -- induction on the samples, the first one split off
  induction samples generalizing start with
  | nil => rfl
  | cons n samples ih =>
    have hfirst := h 0 n rfl
    rw [Nat.mul_zero, Nat.zero_add, Nat.zero_add] at hfirst
    have hrest : b.cells.slice (start + 2) (2 * samples.length) = bigEndian samples := by
      refine ih fun i n hn => ?_
      have hcell := h (i + 1) n hn
      rw [show 2 * (i + 1) + start = 2 * i + (start + 2) by omega,
        show 2 * (i + 1) + (start + 1) = 2 * i + (start + 2 + 1) by omega] at hcell
      exact hcell
    have hpair : b.cells.slice start 2 = [hi n, low n] := by
      rw [← hfirst.1, ← hfirst.2]
      rfl
    rw [List.length_cons, Nat.mul_add, Nat.add_comm, Buffer.slice_append, hpair, hrest]
    rfl

/-- After 250 rounds their samples stand in the packet. -/
theorem Inv.slice_batch {before batch : List (UInt16 × UInt16)} (h : s.Inv)
    (hpending : s.adcPending = []) (hrounds : s.rounds = before ++ batch)
    (hbefore : before.length % 250 = 0) (hlength : batch.length = 250) :
    s.buf.cells.slice 44 500 = bigEndian (batch.map Prod.fst) ∧
      s.buf.cells.slice 544 500 = bigEndian (batch.map Prod.snd) := by
  have hplaced (i : ℕ) (ain : UInt16 × UInt16) (hi : batch[i]? = some ain) :
      Stored (adcStores i ain) s.buf := by
    have hlt : i < batch.length := (List.getElem?_eq_some_iff.mp hi).1
    have hround : s.rounds[before.length + i]? = some ain := by
      rw [hrounds, List.getElem?_append_right (Nat.le_add_right _ _), Nat.add_sub_cancel_left]
      exact hi
    have hstored := h.placed (before.length + i) ain hround (by
      rw [hrounds, if_pos hpending, List.length_append]
      omega)
    rwa [show (before.length + i) % 250 = i by omega] at hstored
  constructor
  · have hcells : ∀ i n, (batch.map Prod.fst)[i]? = some n →
        s.buf.peek (2 * i + 44) = hi n ∧ s.buf.peek (2 * i + 45) = low n := by
      intro i n hn
      rw [List.getElem?_map, Option.map_eq_some_iff] at hn
      obtain ⟨ain, hain, rfl⟩ := hn
      exact (peek_of_adcStores (hplaced i ain hain)).1
    have hslice := slice_eq_bigEndian hcells
    rwa [List.length_map, hlength] at hslice
  · have hcells : ∀ i n, (batch.map Prod.snd)[i]? = some n →
        s.buf.peek (2 * i + 544) = hi n ∧ s.buf.peek (2 * i + 545) = low n := by
      intro i n hn
      rw [List.getElem?_map, Option.map_eq_some_iff] at hn
      obtain ⟨ain, hain, rfl⟩ := hn
      exact (peek_of_adcStores (hplaced i ain hain)).2
    have hslice := slice_eq_bigEndian hcells
    rwa [List.length_map, hlength] at hslice

theorem Inv.header_eq (h : s.Inv) {p : ℕ × UInt8} (hp : p ∈ headerStores)
    (hdone : p ∉ s.headerPending) : s.buf.peek p.1 = p.2 := by
  obtain ⟨done, hsplit, hstored⟩ := h.header
  rw [hsplit] at hp
  exact hstored p ((List.mem_append.mp hp).resolve_right hdone)

theorem Inv.laidOut (h : s.Inv) : s.LaidOut where
  header _ hp hdone := h.header_eq hp hdone
  trace_eq := h.trace_eq
  areas w hw := ⟨(h.owns w hw).lt, fun task =>
    ⟨fun howns => howns.eq (h.owns w hw), fun htask => htask ▸ h.owns w hw⟩⟩
  batch _ _ hpending hrounds hbefore hlength :=
    h.slice_batch hpending hrounds hbefore hlength
  length hpending i := by
    have hhigh : s.buf.peek 4 = 0x04 :=
      h.header_eq (p := (4, 0x04)) (by decide) (by simp [hpending])
    have hlow : s.buf.peek 5 = 0x0E :=
      h.header_eq (p := (5, 0x0E)) (by decide) (by simp [hpending])
    have hword : (Crc.word 0x04 0x0E).toNat = 1038 := by decide
    rw [hhigh, hlow, hword]
    simp only [Task.Owns]
    omega

end Batch

end Filler

/-- **The layout of the packet.** It is kept in every run of the three tasks. -/
theorem laidOut_of_reachable {s : Filler} (h : filling.Reachable s) : s.LaidOut :=
  (h.invariant Filler.inv_init fun _ _ _ hs hstep => hs.step hstep).laidOut

/-! ## Whole rounds -/

theorem step_adc {s : Filler} {p : ℕ × UInt8} {rest : List (ℕ × UInt8)}
    (h : s.adcPending = p :: rest) :
    filling.step s .adc = some (if rest = [] then
      Filler.endRound { s.store .adc p with adcPending := rest }
      else { s.store .adc p with adcPending := rest }) := by
  simp only [filling, Filler.step, h]

/-- The rest of a round, when nothing comes between. -/
theorem run_pending {s : Filler} {p : ℕ × UInt8} {rest : List (ℕ × UInt8)}
    (h : s.adcPending = p :: rest) :
    ∃ t, filling.run s (List.replicate (rest.length + 1) .adc) = some t ∧
      t.m = (if s.m + 1 = 250 then 0 else s.m + 1) ∧
      t.g = { s.g with
        tcpClientSendbuf := (p :: rest).foldl (fun b q => b.store q.1 q.2) s.buf } ∧
      t.rounds = s.rounds ++ [s.ainBuff] ∧ t.adcPending = [] ∧
        t.headerPending = s.headerPending := by
  -- induction on the stores that are left
  induction rest generalizing s p with
  | nil =>
    rw [List.length_nil, List.replicate_succ, Machine.run_cons, step_adc h, if_pos rfl]
    exact ⟨_, rfl, rfl, rfl, rfl, rfl, rfl⟩
  | cons q rest ih =>
    rw [List.length_cons, List.replicate_succ, Machine.run_cons, step_adc h,
      if_neg (List.cons_ne_nil q rest)]
    obtain ⟨t, hrun, hm, hg, hrounds, hpending, hheader⟩ :=
      ih (s := { s.store .adc p with adcPending := q :: rest }) rfl
    exact ⟨t, hrun, hm, hg, hrounds, hpending, hheader⟩

/-- The events of a round of `adc_task` that nothing comes between. -/
def roundEvents (ain : UInt16 × UInt16) : List FillEvent := .getAdc ain :: List.replicate 4 .adc

/-- Such a round is `adcTask`. -/
theorem run_round {s : Filler} (ain : UInt16 × UInt16) (h : s.adcPending = []) :
    ∃ t, filling.run s (roundEvents ain) = some t ∧
      (t.m, t.g) = adcTask ain.1 ain.2 s.m s.g ∧ t.rounds = s.rounds ++ [ain] ∧
        t.adcPending = [] ∧ t.headerPending = s.headerPending := by
  have hget : filling.step s (.getAdc ain) =
      some { s with ainBuff := ain, adcPending := adcStores s.m ain } := if_pos h
  rw [roundEvents, Machine.run_cons, hget]
  obtain ⟨t, hrun, hm, hg, hrounds, hpending, hheader⟩ :=
    run_pending (s := { s with ainBuff := ain, adcPending := adcStores s.m ain }) rfl
  exact ⟨t, hrun, Prod.ext hm hg, hrounds, hpending, hheader⟩

/-- The stores of the client, one after the other, are `header`. -/
theorem run_header :
    ∃ s, filling.run filling.init (List.replicate 6 .header) = some s ∧
      s.g = header boot ∧ s.headerPending = [] ∧ s.adcPending = [] ∧ s.rounds = [] :=
  ⟨_, rfl, rfl, rfl, rfl, rfl⟩

/-- Whatever the samples, there is a run with a round for each. -/
theorem exists_rounds (rounds : List (UInt16 × UInt16)) :
    ∃ s, filling.Reachable s ∧ s.headerPending = [] ∧ s.adcPending = [] ∧ s.rounds = rounds := by
  -- induction on the rounds, the last one split off
  induction rounds using List.reverseRecOn with
  | nil =>
    obtain ⟨s, hrun, -, hheader, hpending, hrounds⟩ := run_header
    exact ⟨s, ⟨_, Machine.exec_of_run hrun⟩, hheader, hpending, hrounds⟩
  | append_singleton rounds ain ih =>
    obtain ⟨s, ⟨es, hes⟩, hheader, hpending, rfl⟩ := ih
    obtain ⟨t, hrun, -, hrounds, hpending', hheader'⟩ := run_round ain hpending
    refine ⟨t, ⟨es ++ roundEvents ain, Machine.exec_of_run ?_⟩, hheader'.trans hheader, hpending',
      hrounds⟩
    rw [Machine.run_append, hes.run_eq]
    exact hrun

/-- 500 rounds, the second half with other samples than the first. -/
theorem laidOut_of_two_batches :
    ∃ s : Filler, s.rounds =
        List.replicate 250 (0x0102, 0x0304) ++ List.replicate 250 (0x0506, 0x0708) ∧
      s.headerPending = [] ∧ s.adcPending = [] ∧ s.LaidOut := by
  obtain ⟨s, hreachable, hheader, hpending, hrounds⟩ :=
    exists_rounds (List.replicate 250 (0x0102, 0x0304) ++ List.replicate 250 (0x0506, 0x0708))
  exact ⟨s, hrounds, hheader, hpending, laidOut_of_reachable hreachable⟩

end FanGateway.Stm32
