import FanGateway.Lib.Preemptible
import FanGateway.Malloc.Session

/-!
# The allocator under interrupts

Tasks call the allocator with interrupts enabled, and the handler of the network
chip allocates and frees a buffer of its own without any lock. It may run between
any two accesses of a call to the table: inside the scan, with the allocation half
marked, or with it half cleared.

A call is therefore taken apart into its accesses. The handler leaves the table as
it found it, whatever it found, so an interrupted call sees the same entries as an
undisturbed one; and since it only takes entries that are zero, its buffer avoids
every allocation whose entries are not.
-/

namespace FanGateway.Malloc

open Lib

variable {b : Bank}

/-! ## The handler -/

/-- The allocation of the receive handler: a buffer of 1600 bytes is filled and
freed, or not available. -/
def lowLevelInput (use : ℕ → Buffer UInt8 b.memsize → Buffer UInt8 b.memsize)
    (d : MallcoDev b) : MallcoDev b :=
  let (buffer, d) := mymalloc 1600 d
  if buffer ≠ 0 then myfree buffer { d with pool := use buffer d.pool } else d

theorem handler_size_le (b : Bank) : 1600 ≤ 65535 * b.memblksize := by
  have hblk := b.blksize_pos
  omega

/-- The handler leaves the table of a ready area as it found it. -/
theorem memmap_lowLevelInput {d : MallcoDev b} (hready : d.memrdy = true)
    (use : ℕ → Buffer UInt8 b.memsize → Buffer UInt8 b.memsize) :
    (lowLevelInput use d).memmap = d.memmap ∧ (lowLevelInput use d).memrdy = true := by
  rcases mymalloc_cases hready (handler_size_le b) with ⟨-, heq⟩ | ⟨o, hpos, hgreatest, heq⟩
  · simp [lowLevelInput, heq, hready]
  · have hrun : FreeRun d.memmap (blocks b 1600) o := hgreatest.1
    have hn := blocks_pos (b := b) hpos
    have hroom := hrun.1
    have hbase := b.base_pos
    have hfirst : (mark d.memmap o (blocks b 1600)).peek o = blocks b 1600 := by
      rw [peek_mark, if_pos ⟨le_rfl, by omega, by omega⟩]
    simp only [lowLevelInput, heq]
    rw [if_pos (by omega), myfree_eq (by exact hready) (by omega)]
    simp only [hfirst, clear_mark hrun, hready, and_self]

/-- The handler's buffer, if it gets one, has no block in common with a run of blocks. -/
def HandlerApart (d : MallcoDev b) (run : Span) : Prop :=
  (mymalloc 1600 d).1 ≠ 0 → (span b ⟨(mymalloc 1600 d).1, 1600⟩).Apart run

/-- The handler's buffer avoids every run whose entries are not zero. -/
theorem handlerApart_of_taken {d : MallcoDev b} (hready : d.memrdy = true) {run : Span}
    (htaken : ∀ j, run.Covers j → d.memmap.peek j ≠ 0) : HandlerApart d run := by
  intro hbuffer j hhandler hcovers
  rcases mymalloc_cases hready (handler_size_le b) with ⟨-, heq⟩ | ⟨o, hpos, hgreatest, heq⟩
  · exact hbuffer (by rw [heq])
  · have hspan : span b ⟨(mymalloc 1600 d).1, 1600⟩ = ⟨o, blocks b 1600⟩ := by
      simp only [heq, span, Nat.add_sub_cancel_left, Nat.mul_div_cancel _ b.blksize_pos]
    rw [hspan] at hhandler
    exact htaken j hcovers (hgreatest.1.2 j hhandler.1 hhandler.2)

/-! ## Calls, access by access -/

/-- A call of `my_mem_malloc` or `my_mem_free`. -/
inductive Call
  | myMemMalloc (size : ℕ)
  | myMemFree (offset : ℕ)
  deriving DecidableEq, Repr

/-- The whole call at once. -/
def Call.atomic : Call → MallcoDev b → ℕ × MallcoDev b
  | .myMemMalloc size => Malloc.myMemMalloc size
  | .myMemFree offset => Malloc.myMemFree offset

/-- Where a call stands, with its local variables. -/
inductive Pc
  /-- About to look at the entry below `offset`. -/
  | scan (nmemb offset cmemb : ℕ)
  /-- About to mark entry `i` of the allocation. -/
  | mark (nmemb offset i : ℕ)
  /-- About to read the block count. -/
  | load (index : ℕ)
  /-- About to clear entry `i` of the allocation. -/
  | clear (nmemb index i : ℕ)
  | done (value : ℕ)
  deriving DecidableEq, Repr

/-- The start of a call in a ready area. -/
def Call.start (b : Bank) : Call → Pc
  | .myMemMalloc size =>
    if size = 0 then .done 0xFFFFFFFF else .scan (nmembOf b size) b.memtblsize 0
  | .myMemFree offset =>
    if offset < b.memsize then .load (offset / b.memblksize) else .done 2

/-- A call in progress and the table. -/
abbrev View (b : Bank) := Pc × Buffer ℕ b.memtblsize

/-- One access to the table, with what the call does up to the next one. -/
def access (b : Bank) : View b → View b
  | (.scan _ 0 _, memmap) => (.done 0xFFFFFFFF, memmap)
  | (.scan nmemb (offset + 1) cmemb, memmap) =>
    let cmemb := if memmap.peek offset = 0 then (cmemb + 1) % 65536 else 0
    (if cmemb = nmemb then .mark nmemb offset 0 else .scan nmemb offset cmemb, memmap)
  | (.mark nmemb offset i, memmap) =>
    if i < nmemb then (.mark nmemb offset (i + 1), memmap.poke (i + offset) nmemb)
    else (.done (offset * b.memblksize % 2 ^ 32), memmap)
  | (.load index, memmap) => (.clear (memmap.peek index) index 0, memmap)
  | (.clear nmemb index i, memmap) =>
    if i < nmemb then (.clear nmemb index (i + 1), memmap.poke (i + index) 0)
    else (.done 0, memmap)
  | (.done value, memmap) => (.done value, memmap)

/-- What is left of a call, done at once. -/
def finish (b : Bank) : View b → ℕ × Buffer ℕ b.memtblsize
  | (.scan nmemb offset cmemb, memmap) =>
    match search memmap nmemb offset cmemb with
    | some offset => (offset * b.memblksize % 2 ^ 32, mark memmap offset nmemb)
    | none => (0xFFFFFFFF, memmap)
  | (.mark nmemb offset i, memmap) =>
    (offset * b.memblksize % 2 ^ 32,
      forRange i nmemb (fun i memmap => memmap.poke (i + offset) nmemb) memmap)
  | (.load index, memmap) => (0, clear memmap index (memmap.peek index))
  | (.clear nmemb index i, memmap) =>
    (0, forRange i nmemb (fun i memmap => memmap.poke (i + index) 0) memmap)
  | (.done value, memmap) => (value, memmap)

/-- A number of accesses after which a call is done. -/
def duration {b : Bank} : View b → ℕ
  | (.scan nmemb offset _, _) => offset + nmemb + 2
  | (.mark nmemb _ i, _) => nmemb - i + 1
  | (.load index, memmap) => memmap.peek index + 2
  | (.clear nmemb _ i, _) => nmemb - i + 1
  | (.done _, _) => 0

/-- A call done at once is its start followed by all the rest. -/
theorem finish_start {d : MallcoDev b} (hready : d.memrdy = true) (c : Call) :
    finish b (c.start b, d.memmap) = ((c.atomic d).1, (c.atomic d).2.memmap) := by
  cases c with
  | myMemMalloc size =>
    simp only [Call.start, Call.atomic, Malloc.myMemMalloc, hready, if_true]
    split_ifs
    · rfl
    · rw [finish]
      cases search d.memmap (nmembOf b size) b.memtblsize 0 <;> rfl
  | myMemFree offset =>
    simp only [Call.start, Call.atomic, Malloc.myMemFree, hready, Bool.true_eq_false, if_false]
    split_ifs <;> rfl

/-- An access leaves the outcome of the call as it was. -/
theorem finish_access (v : View b) : finish b (access b v) = finish b v := by
  obtain ⟨pc, memmap⟩ := v
  cases pc with
  -- the scan: one step of the search
  | scan nmemb offset cmemb =>
    cases offset with
    | zero => rfl
    | succ offset =>
      rw [access, finish, search]
      split_ifs <;> rfl
  -- marking: the first round of the loop that is left
  | mark nmemb offset i =>
    rw [access]
    split_ifs with hlt
    · rw [finish, finish, forRange_head hlt]
    · rw [finish, finish, forRange_of_le (by omega)]
  | load index => rfl
  | clear nmemb index i =>
    rw [access]
    split_ifs with hlt
    · rw [finish, finish, forRange_head hlt]
    · rw [finish, finish, forRange_of_le (by omega)]
  | done value => rfl

/-- An access brings a call that is not done nearer to its end. -/
theorem duration_access (v : View b) : duration (access b v) ≤ duration v - 1 := by
  obtain ⟨pc, memmap⟩ := v
  cases pc with
  | scan nmemb offset cmemb =>
    cases offset with
    | zero => exact Nat.zero_le _
    | succ offset =>
      rw [access]
      split_ifs <;> simp only [duration] <;> omega
  | mark nmemb offset i =>
    rw [access]
    split_ifs with hlt <;> simp only [duration] <;> omega
  | load index => simp only [access, duration]; omega
  | clear nmemb index i =>
    rw [access]
    split_ifs with hlt <;> simp only [duration] <;> omega
  | done value => exact Nat.zero_le _

theorem finish_iterate (v : View b) (k : ℕ) : finish b ((access b)^[k] v) = finish b v := by
  induction k with
  | zero => rfl
  | succ k ih => rw [Function.iterate_succ_apply', finish_access, ih]

theorem duration_iterate (v : View b) (k : ℕ) :
    duration ((access b)^[k] v) ≤ duration v - k := by
  induction k with
  | zero => exact le_rfl
  | succ k ih =>
    rw [Function.iterate_succ_apply']
    exact (duration_access _).trans (by omega)

/-- A call with nothing left to do has returned. -/
theorem done_of_duration {v : View b} (h : duration v = 0) : ∃ value, v.1 = .done value := by
  obtain ⟨pc, memmap⟩ := v
  cases pc with
  | done value => exact ⟨value, rfl⟩
  | _ => exact absurd h (by simp [duration])

/-- An access leaves an entry as it is or gives it the value it will have in the end. -/
theorem peek_access (v : View b) (j : ℕ) :
    (access b v).2.peek j = v.2.peek j ∨
      (access b v).2.peek j = (finish b v).2.peek j := by
  obtain ⟨pc, memmap⟩ := v
  cases pc with
  | scan nmemb offset cmemb => cases offset <;> exact .inl rfl
  | mark nmemb offset i =>
    rw [access]
    split_ifs with hlt
    · by_cases hj : j = i + offset ∧ j < b.memtblsize
      · refine .inr ?_
        rw [finish, Buffer.peek_forRange_poke (g := fun _ => nmemb), Buffer.peek_poke, if_pos hj,
          if_pos (by omega)]
      · exact .inl (by rw [Buffer.peek_poke, if_neg hj])
    · exact .inl rfl
  | load index => exact .inl rfl
  | clear nmemb index i =>
    rw [access]
    split_ifs with hlt
    · by_cases hj : j = i + index ∧ j < b.memtblsize
      · refine .inr ?_
        rw [finish, Buffer.peek_forRange_poke (g := fun _ => 0), Buffer.peek_poke, if_pos hj,
          if_pos (by omega)]
      · exact .inl (by rw [Buffer.peek_poke, if_neg hj])
    · exact .inl rfl
  | done value => exact .inl rfl

/-- At every point of a call each entry has its first or its last value. -/
theorem peek_iterate (v : View b) (k j : ℕ) :
    ((access b)^[k] v).2.peek j = v.2.peek j ∨
      ((access b)^[k] v).2.peek j = (finish b v).2.peek j := by
  -- induction on the accesses; what is left of the call has the same outcome throughout
  induction k with
  | zero => exact .inl rfl
  | succ k ih =>
    rw [Function.iterate_succ_apply']
    rcases peek_access ((access b)^[k] v) j with hsame | hlast
    · rwa [hsame]
    · exact .inr (by rw [hlast, finish_iterate])

/-! ## Interrupted calls -/

/-- A call in progress in an area. -/
structure Interrupted (b : Bank) where
  pc : Pc
  dev : MallcoDev b

/-- Calls of a task on a ready area, interrupted by the receive handler. -/
def preemption (b : Bank) :
    Preemptible (Interrupted b) (ℕ → Buffer UInt8 b.memsize → Buffer UInt8 b.memsize) (View b) where
  step s :=
    let (pc, memmap) := access b (s.pc, s.dev.memmap)
    ⟨pc, { s.dev with memmap }⟩
  handle use s := ⟨s.pc, lowLevelInput use s.dev⟩
  view s := (s.pc, s.dev.memmap)
  next := access b
  Ready s := s.dev.memrdy = true
  view_step _ := rfl
  view_handle use s hready := by rw [(memmap_lowLevelInput hready use).1]
  ready_step _ hready := hready
  ready_handle use _ hready := (memmap_lowLevelInput hready use).2

/-- A call after some turns of its own and of the handler. -/
def Call.after (c : Call) (d : MallcoDev b)
    (turns : List (Turn (ℕ → Buffer UInt8 b.memsize → Buffer UInt8 b.memsize))) : Interrupted b :=
  (preemption b).run ⟨c.start b, d⟩ turns

section Interrupted

variable {d : MallcoDev b} (c : Call)
  (turns : List (Turn (ℕ → Buffer UInt8 b.memsize → Buffer UInt8 b.memsize)))

theorem view_after (hready : d.memrdy = true) :
    ((c.after d turns).pc, (c.after d turns).dev.memmap) =
      (access b)^[Turn.steps turns] (c.start b, d.memmap) :=
  (preemption b).view_run (s := ⟨c.start b, d⟩) hready turns

theorem ready_after (hready : d.memrdy = true) : (c.after d turns).dev.memrdy = true :=
  (preemption b).ready_run (s := ⟨c.start b, d⟩) hready turns

/-- An interrupted call that has returned has returned the value and left the table of the
undisturbed call. -/
theorem eq_atomic_of_done (hready : d.memrdy = true) {value : ℕ}
    (hdone : (c.after d turns).pc = .done value) :
    value = (c.atomic d).1 ∧ (c.after d turns).dev.memmap = (c.atomic d).2.memmap := by
  -- what is left of a call that is done is its value and the table
  have hfinish := finish_iterate (c.start b, d.memmap) (Turn.steps turns)
  rw [← view_after c turns hready, finish_start hready, hdone] at hfinish
  exact Prod.mk.inj hfinish

/-- A call returns after a bounded number of its own accesses, whatever the handler does. -/
theorem done_of_steps (hready : d.memrdy = true)
    (hsteps : duration (c.start b, d.memmap) ≤ Turn.steps turns) :
    ∃ value, (c.after d turns).pc = .done value := by
  have hleft := duration_iterate (c.start b, d.memmap) (Turn.steps turns)
  rw [← view_after c turns hready] at hleft
  exact done_of_duration (Nat.le_zero.mp (hleft.trans (Nat.sub_eq_zero_of_le hsteps).le))

/-- Every entry an interrupted call sees has its first or its last value. -/
theorem peek_after (hready : d.memrdy = true) (j : ℕ) :
    (c.after d turns).dev.memmap.peek j = d.memmap.peek j ∨
      (c.after d turns).dev.memmap.peek j = (c.atomic d).2.memmap.peek j := by
  have hpeek := peek_iterate (c.start b, d.memmap) (Turn.steps turns) j
  rwa [← view_after c turns hready, finish_start hready] at hpeek

end Interrupted

/-- What an allocation of any size does, even of one too large for the counter: it changes
nothing, or it marks the entries of a free run. -/
theorem myMemMalloc_marks {d : MallcoDev b} (hready : d.memrdy = true) (size : ℕ) :
    myMemMalloc size d = (0xFFFFFFFF, d) ∨
      ∃ o < b.memtblsize, (0 < nmembOf b size → FreeRun d.memmap (nmembOf b size) o) ∧
        myMemMalloc size d =
          (o * b.memblksize, { d with memmap := mark d.memmap o (nmembOf b size) }) := by
  simp only [myMemMalloc, hready, if_true]
  split_ifs
  · exact .inl rfl
  · cases hsearch : search d.memmap (nmembOf b size) b.memtblsize 0 with
    -- no row of free entries is long enough
    | none => exact .inl rfl
    | some o =>
      have hlt : o < b.memtblsize := search_lt hsearch
      refine .inr ⟨o, hlt, fun hpos => ?_, by simp only [Nat.mod_eq_of_lt (offset_lt hlt)]⟩
      have hfound : Found d.memmap (nmembOf b size)
          (search d.memmap (nmembOf b size) b.memtblsize 0) :=
        search_found hpos (nmembOf_lt size)
      rw [hsearch] at hfound
      exact hfound.1

/-- Such an allocation leaves the entries that are taken as they are. -/
theorem peek_myMemMalloc_of_taken {d : MallcoDev b} (hready : d.memrdy = true) (size j : ℕ)
    (htaken : d.memmap.peek j ≠ 0) :
    (myMemMalloc size d).2.memmap.peek j = d.memmap.peek j := by
  rcases myMemMalloc_marks hready size with heq | ⟨o, -, hfree, heq⟩
  · rw [heq]
  · rw [heq]
    simp only [peek_mark]
    rw [if_neg]
    rintro ⟨hlower, hupper, -⟩
    have hrun := hfree (by omega)
    exact htaken (hrun.2 j hlower hupper)

/-- What tasks rely on while a call is interrupted: the handler's buffer avoids every allocation
in use. An allocation being freed is no longer in use, one being made is in use once its call
has returned. -/
structure HandlerAvoidsLive (s : Session b) (c : Call) (t : Interrupted b) : Prop where
  malloc : ∀ size, c = .myMemMalloc size → ∀ a ∈ s.live, HandlerApart t.dev (span b a)
  /-- The blocks a call of any size has marked. -/
  marked : ∀ size, c = .myMemMalloc size → ∀ offset, t.pc = .done offset →
    offset ≠ 0xFFFFFFFF → HandlerApart t.dev ⟨offset / b.memblksize, nmembOf b size⟩
  /-- If the counter can hold the size, they are the blocks of the request. -/
  returned : ∀ size ≤ 65535 * b.memblksize, c = .myMemMalloc size → ∀ offset,
    t.pc = .done offset → offset ≠ 0xFFFFFFFF →
      HandlerApart t.dev (span b ⟨b.membase + offset, size⟩)
  free : ∀ a ∈ s.live, c = .myMemFree (a.ptr - b.membase) → ∀ a' ∈ s.live, a' ≠ a →
    HandlerApart t.dev (span b a')

section Avoids

variable {s : Session b} {L : Layout b.memtblsize}

variable (c : Call)
  (turns : List (Turn (ℕ → Buffer UInt8 b.memsize → Buffer UInt8 b.memsize)))

/-- During an allocation, what was in use before it. -/
theorem Represents.handlerApart_malloc (h : Represents s L) (hready : s.dev.memrdy = true)
    (size : ℕ) {a : Live} (ha : a ∈ s.live) :
    HandlerApart ((Call.myMemMalloc size).after s.dev turns).dev (span b a) := by
  apply handlerApart_of_taken (ready_after _ turns hready)
  intro j hj
  have htaken := h.taken ha hj
  -- the call only writes to entries that were zero, so this one is as it was
  rcases peek_after (.myMemMalloc size) turns hready j with hfirst | hlast
  · rwa [hfirst]
  · rw [hlast]
    exact (peek_myMemMalloc_of_taken hready size j htaken).symm ▸ htaken

/-- After an allocation, what it has marked. -/
theorem handlerApart_marked {d : MallcoDev b} (hready : d.memrdy = true) (size : ℕ) {offset : ℕ}
    (hdone : ((Call.myMemMalloc size).after d turns).pc = .done offset)
    (hoffset : offset ≠ 0xFFFFFFFF) :
    HandlerApart ((Call.myMemMalloc size).after d turns).dev
      ⟨offset / b.memblksize, nmembOf b size⟩ := by
  apply handlerApart_of_taken (ready_after _ turns hready)
  intro j hj
  obtain ⟨hvalue, htable⟩ := eq_atomic_of_done _ turns hready hdone
  rcases myMemMalloc_marks hready size with heq | ⟨o, -, hfree, heq⟩
  · exact absurd (hvalue.trans (congrArg Prod.fst heq)) hoffset
  · have hstart : offset / b.memblksize = o := by
      rw [hvalue, Call.atomic, heq]
      exact Nat.mul_div_cancel _ b.blksize_pos
    rw [hstart] at hj
    obtain ⟨hlower, hupper⟩ := hj
    simp only at hlower hupper
    have hpos : 0 < nmembOf b size := by omega
    have hroom := (hfree hpos).1
    have hmarked : (mark d.memmap o (nmembOf b size)).peek j = nmembOf b size := by
      rw [peek_mark, if_pos ⟨hlower, hupper, by omega⟩]
    rw [htable, Call.atomic, heq]
    simp only [hmarked]
    exact hpos.ne'

/-- During a free, what stays in use. -/
theorem Represents.handlerApart_free (h : Represents s L) (hready : s.dev.memrdy = true)
    {a a' : Live} (ha : a ∈ s.live) (ha' : a' ∈ s.live) (hne : a' ≠ a) :
    HandlerApart ((Call.myMemFree (a.ptr - b.membase)).after s.dev turns).dev (span b a') := by
  apply handlerApart_of_taken (ready_after _ turns hready)
  intro j hj
  have htaken := h.taken ha' hj
  have hspan := h.mem_spans ha
  have hpos := L.nonempty _ hspan
  have hwithin := L.within _ hspan
  rcases peek_after (.myMemFree (a.ptr - b.membase)) turns hready j with hfirst | hlast
  · rwa [hfirst]
  · have hcount : s.dev.memmap.peek (span b a).start = (span b a).len := by
      rw [h.memmap, Layout.label_eq_len hspan (Span.covers_start hpos)]
    -- the call clears the run of `a`, and the two runs have no block in common
    have houtside : ¬ ((span b a).start ≤ j ∧ j < (span b a).start + (span b a).len) :=
      h.apart ha ha' hne j hj
    rw [hlast, Call.atomic, h.ptr a ha, Nat.add_sub_cancel_left,
      myMemFree_eq hready (by omega), hcount]
    simp only [peek_clear]
    rwa [if_neg houtside]

theorem Represents.handlerAvoidsLive (h : Represents s L) (hready : s.dev.memrdy = true) :
    HandlerAvoidsLive s c (c.after s.dev turns) := by
  refine ⟨?_, ?_, ?_, ?_⟩
  · rintro size rfl a ha
    exact h.handlerApart_malloc turns hready size ha
  · rintro size rfl offset hdone hoffset
    exact handlerApart_marked turns hready size hdone hoffset
  · rintro size hfits rfl offset hdone hoffset
    have hspan : span b ⟨b.membase + offset, size⟩ =
        ⟨offset / b.memblksize, nmembOf b size⟩ := by
      simp only [span, Nat.add_sub_cancel_left, nmembOf_eq hfits]
    rw [hspan]
    exact handlerApart_marked turns hready size hdone hoffset
  · rintro a ha rfl a' ha' hne
    exact h.handlerApart_free turns hready ha ha' hne

end Avoids

/-- **Preemption.** In every state a session reaches with the area ready, any call may be
interrupted by the receive handler between any two of its accesses to the table, any number
of times: it returns the value and leaves the table of the undisturbed call, after no more
accesses of its own than without the handler, and the handler's buffer avoids the
allocations in use at every point. -/
theorem preempted_call (b : Bank) {s : Session b} (h : (sessions b).Reachable s)
    (hready : s.dev.memrdy = true) (c : Call)
    (turns : List (Turn (ℕ → Buffer UInt8 b.memsize → Buffer UInt8 b.memsize))) :
    (∀ value, (c.after s.dev turns).pc = .done value →
        value = (c.atomic s.dev).1 ∧
          (c.after s.dev turns).dev.memmap = (c.atomic s.dev).2.memmap) ∧
      (duration (c.start b, s.dev.memmap) ≤ Turn.steps turns →
        ∃ value, (c.after s.dev turns).pc = .done value) ∧
      HandlerAvoidsLive s c (c.after s.dev turns) := by
  obtain ⟨L, hL⟩ := represents_of_reachable h
  exact ⟨fun _ hdone => eq_atomic_of_done c turns hready hdone,
    fun hsteps => done_of_steps c turns hready hsteps, hL.handlerAvoidsLive c turns hready⟩

/-- An allocation in the external area interrupted in the middle of its scan. -/
theorem preempted_call_sramex :
    ∃ s, (sessions sramex).run (sessions sramex).init [.malloc 40] = some s ∧
      s.dev.memrdy = true ∧
      HandlerAvoidsLive s (.myMemMalloc 8)
        (Call.after (.myMemMalloc 8) s.dev [.step, .handler fun _ pool => pool, .step]) :=
  ⟨_, rfl, rfl, (preempted_call sramex ⟨[.malloc 40], Machine.exec_of_run rfl⟩ rfl
    (.myMemMalloc 8) [.step, .handler fun _ pool => pool, .step]).2.2⟩

end FanGateway.Malloc
