import FanGateway.Enc28j60.Length
import FanGateway.Malloc.Placement
import FanGateway.Net.CommInit
import FanGateway.Net.Ethernet

/-!
# The port layer without memory

A frame that is sent or received, and the descriptor of a mailbox, need a block of the
internal memory area. `low_level_input` gives up without one. The other two report the
failure and go on: `low_level_output` copies the frame to address 0 and sends what it
finds there, and `sys_mbox_new` clears a descriptor at address 0 before it looks at the
pointer.
-/

namespace FanGateway.Enc28j60

variable {σ : Type*} {B : Bus σ}

/-- The accesses leave alone what is beside the chip. -/
theorem Bus.keeps_beside {κ : Type*} (k : κ) : (B.beside κ).Keeps fun s => s.2 = k where
  readOp _ _ _ h := h
  writeOp _ _ _ _ h := h
  read _ _ h := h
  write _ _ _ h := h

end FanGateway.Enc28j60

namespace FanGateway.Net

open Lib Enc28j60 Malloc

variable {σ : Type*} {b : Bank}

/-! ## Mailboxes -/

/-- A pointer in memory, low byte first. -/
def pointerBytes (p : ℕ) : List UInt8 :=
  [UInt8.ofNat p, UInt8.ofNat (p >>> 8), UInt8.ofNat (p >>> 16), UInt8.ofNat (p >>> 24)]

/-- `MAX_QUEUE_ENTRIES`. -/
abbrev maxQueueEntries : ℕ := 20

/-- The size of a descriptor: the pointer to the queue, and the entries of the queue. -/
abbrev sizeofTqDescr : ℕ := 4 + 4 * maxQueueEntries

/-- `sys_mbox_new`: the error code and what the mailbox variable points to. `osqCreate` gives the
queue over the entries from an address on, or the null pointer. -/
def sysMboxNew (osqCreate : ℕ → ℕ → ℕ) (size : ℕ) (m : Memory b) : ℤ × ℕ × Memory b :=
  let mbox := mymalloc sizeofTqDescr m.dev
  let m := mymemset mbox.1 0 sizeofTqDescr { m with dev := mbox.2 }
  if mbox.1 ≠ 0 then
    let size := if size > maxQueueEntries then maxQueueEntries else size
    let pQ := osqCreate (mbox.1 + 4) size
    let m := m.writeBytes mbox.1 (pointerBytes pQ)
    if pQ ≠ 0 then (errOk, mbox.1, m)
    else (errMem, mbox.1, { m with dev := myfree mbox.1 m.dev })
  else (errMem, mbox.1, m)

/-! ## What the port should do -/

/-- What has been written since lies in the block that an allocation of `size` bytes gives. -/
def WritesBlock (m m' : Memory b) (size : ℕ) : Prop :=
  ∃ as, m'.writes = m.writes ++ as ∧ ∀ a ∈ as, (mymalloc size m.dev).1 ≠ 0 ∧
    (mymalloc size m.dev).1 ≤ a ∧ a < (mymalloc size m.dev).1 + size

/-- The chain is sent, or there is no memory and it is not. -/
structure OutputSound (p : Pbuf) (s : Board σ b) (r : ℤ × Board σ b) : Prop where
  sends : (r.1 = errOk ∧ r.2.host.sent = s.host.sent ++ [p.payloads.flatten]) ∨
    ((mymalloc p.totLen s.mem.dev).1 = 0 ∧ r.1 ≠ errOk ∧ r.2.host.sent = s.host.sent)
  writes : WritesBlock s.mem r.2.mem p.totLen
  table : r.2.mem.dev.memmap = s.mem.dev.memmap

/-- There is no chain, or its payload is the frame. -/
structure InputSound (s : Board σ b) (r : Option (List (List UInt8)) × Board σ b) : Prop where
  frame : ∀ chain, r.1 = some chain → ∃ q, r.2.host.received = s.host.received ++ [q] ∧
    chain.flatten = q.stored.take q.len
  writes : WritesBlock s.mem r.2.mem 1600
  table : r.2.mem.dev.memmap = s.mem.dev.memmap

/-- There is a descriptor in a block of its own, with a queue over its entries; or there is
none. -/
structure NewSound (osqCreate : ℕ → ℕ → ℕ) (size : ℕ) (m : Memory b) (r : ℤ × ℕ × Memory b) :
    Prop where
  creates : (r.1 = errOk ∧ r.2.1 = (mymalloc sizeofTqDescr m.dev).1 ∧ r.2.1 ≠ 0 ∧
      r.2.2.dev.memmap = (mymalloc sizeofTqDescr m.dev).2.memmap ∧
      osqCreate (r.2.1 + 4) (min size maxQueueEntries) ≠ 0 ∧
      (r.2.2.readBytes r.2.1 4).1 =
        pointerBytes (osqCreate (r.2.1 + 4) (min size maxQueueEntries))) ∨
    (r.1 = errMem ∧ r.2.2.dev.memmap = m.dev.memmap)
  writes : WritesBlock m r.2.2 sizeofTqDescr

section Writes

variable {m m' : Memory b} {size : ℕ} {as : List ℕ}

/-- What is written from the pointer an allocation returns is written to a block unless the
allocation has failed. -/
theorem writesBlock_iff (hwrites : m'.writes = m.writes ++ as)
    (hrange : ∀ a ∈ as, (mymalloc size m.dev).1 ≤ a ∧ a < (mymalloc size m.dev).1 + size) :
    WritesBlock m m' size ↔ as = [] ∨ (mymalloc size m.dev).1 ≠ 0 := by
  constructor
  · rintro ⟨as', hwrites', hall⟩
    obtain rfl := List.append_cancel_left (hwrites.symm.trans hwrites')
    cases as with
    | nil => exact .inl rfl
    | cons a as => exact .inr (hall a List.mem_cons_self).1
  · rintro (rfl | hblock)
    · exact ⟨[], hwrites, fun a ha => absurd ha List.not_mem_nil⟩
    · exact ⟨as, hwrites, fun a ha => ⟨hblock, hrange a ha⟩⟩

/-- Addresses from a pointer on do not wrap. -/
theorem mem_range_of_le {ptr n a : ℕ} (h : ptr + n ≤ 2 ^ 32)
    (ha : a ∈ (List.range n).map fun i => (ptr + i) % 2 ^ 32) : ptr ≤ a ∧ a < ptr + n := by
  obtain ⟨i, hi, rfl⟩ := List.mem_map.mp ha
  have hlt := List.mem_range.mp hi
  rw [Nat.mod_eq_of_lt (by omega)]
  omega

/-- Every request of less than 64 K is one the counter holds. -/
theorem fits_of_lt (h : size < 65536) : size ≤ 65535 * b.memblksize := by
  have hblk := b.blksize_pos
  have hmul := Nat.mul_le_mul_left 65535 hblk
  omega

/-- Neither the block nor, if there is none, what is written from address 0 on wraps. -/
theorem range_of_lt (hunused : Unused m.dev) (h : size < 65536) :
    (mymalloc size m.dev).1 + size ≤ 2 ^ 32 := by
  by_cases hnull : (mymalloc size m.dev).1 = 0
  · omega
  · exact (hunused.mymalloc_spec (fits_of_lt h)).2 hnull

end Writes

/-! ## Sending -/

section Output

variable {B : Bus σ} {polls : ℕ} {s : Board σ b}

theorem copyChain_eq (buffer l : ℕ) (payloads : List (List UInt8)) (m : Memory b) :
    copyChain buffer l payloads m = m.writeBytes (buffer + l) payloads.flatten := by
  induction payloads generalizing l m with
  | nil => rfl
  | cons payload q ih =>
    rw [copyChain, ih, List.flatten_cons, Memory.writeBytes_append, Nat.add_assoc]

/-- The packet is the payload of the chain, block or no block. -/
theorem copyPacket_spec (m : Memory b) {p : Pbuf} (hlen : p.totLen = p.payloads.flatten.length)
    (hrange : (mymalloc p.totLen m.dev).1 + p.totLen ≤ 2 ^ 32) :
    (copyPacket p m).1 = p.payloads.flatten ∧
      (copyPacket p m).2.2.writes = m.writes ++
        (List.range p.totLen).map (fun i => ((mymalloc p.totLen m.dev).1 + i) % 2 ^ 32) ∧
      (copyPacket p m).2.2.dev.memmap = (mymalloc p.totLen m.dev).2.memmap ∧
      (copyPacket p m).2.2.dev.memrdy = true := by
  simp only [copyPacket, copyChain_eq, Nat.add_zero]
  rw [hlen] at hrange ⊢
  refine ⟨Memory.readBytes_writeBytes hrange, Memory.writes_writeBytes,
    Memory.table_writeBytes.1, Memory.table_writeBytes.2.trans memrdy_mymalloc⟩

theorem lowLevelOutput_spec (hunused : Unused s.mem.dev) {p : Pbuf}
    (hlen : p.totLen = p.payloads.flatten.length) {r : ℤ × Board σ b}
    (h : lowLevelOutput B polls p s = some r) :
    r.1 = errOk ∧ r.2.host.sent = s.host.sent ++ [p.payloads.flatten] ∧
      r.2.mem.writes = s.mem.writes ++
        (List.range p.totLen).map (fun i => ((mymalloc p.totLen s.mem.dev).1 + i) % 2 ^ 32) ∧
      r.2.mem.dev.memmap = s.mem.dev.memmap := by
  obtain ⟨hpacket, hwrites, hmap, hrdy⟩ :=
    copyPacket_spec s.mem hlen (range_of_lt hunused p.totLen_lt)
  obtain ⟨t, ht, rfl⟩ := Option.map_eq_some_iff.mp h
  -- sending leaves the controller alone
  have hhost : t.host =
      { s.host with
        mem := (copyPacket p s.mem).2.2
        sent := s.host.sent ++ [(copyPacket p s.mem).1] } :=
    (B.keeps_beside _).sysPacketSend rfl ht
  refine ⟨rfl, ?_, ?_, ?_⟩
  · exact (congrArg Host.sent hhost).trans (congrArg (fun x => s.host.sent ++ [x]) hpacket)
  · exact (congrArg (fun h => h.mem.writes) hhost).trans hwrites
  · have hdev : t.mem.dev = (copyPacket p s.mem).2.2.dev := congrArg (fun h => h.mem.dev) hhost
    rw [← hdev] at hmap hrdy
    exact hunused.memmap_free (fits_of_lt p.totLen_lt) hmap hrdy

theorem outputSound_iff (hunused : Unused s.mem.dev) {p : Pbuf}
    (hlen : p.totLen = p.payloads.flatten.length) {r : ℤ × Board σ b}
    (h : lowLevelOutput B polls p s = some r) :
    OutputSound p s r ↔ p.totLen = 0 ∨ HasRoom p.totLen s.mem.dev := by
  obtain ⟨hok, hsent, hwrites, htable⟩ := lowLevelOutput_spec hunused hlen h
  have hblock := writesBlock_iff hwrites fun a ha =>
    mem_range_of_le (range_of_lt hunused p.totLen_lt) ha
  rw [List.map_eq_nil_iff, List.range_eq_nil,
    (hunused.mymalloc_spec (fits_of_lt p.totLen_lt)).1] at hblock
  constructor
  · intro hsound
    exact (hblock.mp hsound.writes).imp_right And.right
  · intro hroom
    refine ⟨.inl ⟨hok, hsent⟩, hblock.mpr ?_, htable⟩
    rcases Nat.eq_zero_or_pos p.totLen with hzero | hpos
    · exact .inl hzero
    · exact .inr ⟨hpos, hroom.resolve_left hpos.ne'⟩

end Output

/-! ## Receiving -/

section Input

variable {B : Bus σ} {polls : ℕ} {s : Board σ b}

theorem sum_pbufTail {free remLen : ℕ} {lens : List ℕ} (h : pbufTail free remLen = some lens) :
    lens.sum = remLen := by
  -- induction on the buffers that are left in the pool
  induction free generalizing remLen lens with
  | zero =>
    cases remLen with
    | zero => obtain rfl := Option.some.inj h; rfl
    | succ remLen => exact absurd h (by simp [pbufTail])
  | succ free ih =>
    cases remLen with
    | zero => obtain rfl := Option.some.inj h; rfl
    | succ remLen =>
      obtain ⟨rest, hrest, rfl⟩ := Option.map_eq_some_iff.mp h
      rw [List.sum_cons, ih hrest]
      omega

/-- The pieces hold as many bytes as are asked for. -/
theorem sum_pbufAlloc {free length : ℕ} {lens : List ℕ} (h : pbufAlloc free length = some lens) :
    lens.sum = length % 65536 := by
  simp only [pbufAlloc] at h
  split_ifs at h
  obtain ⟨rest, hrest, rfl⟩ := Option.map_eq_some_iff.mp h
  rw [List.sum_cons, sum_pbufTail hrest]
  omega

/-- The pieces get the bytes of the buffer in order. -/
theorem fillChain_spec (buffer l : ℕ) (lens : List ℕ) (m : Memory b) :
    (fillChain buffer l lens m).1.flatten = (m.readBytes (buffer + l) lens.sum).1 ∧
      (fillChain buffer l lens m).2.dev = m.dev ∧
      (fillChain buffer l lens m).2.writes = m.writes := by
  induction lens generalizing l m with
  | nil => exact ⟨rfl, rfl, rfl⟩
  | cons len q ih =>
    obtain ⟨hbytes, hdev, hwrites⟩ := ih (l + len) (m.readBytes (buffer + l) len).2
    refine ⟨?_, hdev, hwrites⟩
    rw [List.sum_cons, Memory.readBytes_add, Nat.add_assoc]
    exact congrArg ((m.readBytes (buffer + l) len).1 ++ ·) hbytes

/-- The chain holds the packet, and the buffer is freed. -/
theorem takeFrame_spec {buffer : ℕ} {r : Received} (hfits : Sys.Fits maxFramelen r)
    (hrange : buffer + maxFramelen ≤ 2 ^ 32) (s : Board σ b) :
    (takeFrame buffer r s).2.host.received = s.host.received ++ [r] ∧
      (∀ chain, (takeFrame buffer r s).1 = some chain → chain.flatten = r.stored.take r.len) ∧
      (takeFrame buffer r s).2.mem.writes = (s.mem.writeBytes buffer r.stored).writes ∧
      (takeFrame buffer r s).2.mem.dev = myfree buffer (s.mem.writeBytes buffer r.stored).dev := by
  have hstored := hfits.length_le
  simp only [takeFrame]
  split
  · exact ⟨rfl, fun chain h => absurd h (by simp), rfl, rfl⟩
  · rename_i lens hlens
    obtain ⟨hbytes, hdev, hwrites⟩ :=
      fillChain_spec buffer 0 lens (s.mem.writeBytes buffer r.stored)
    have hsum : lens.sum = r.len := by
      have hlt := hfits.len_lt
      rw [sum_pbufAlloc hlens]
      exact Nat.mod_eq_of_lt (hlt.trans (by decide))
    refine ⟨rfl, fun chain h => ?_, hwrites, congrArg (myfree buffer) hdev⟩
    obtain rfl := Option.some.inj h
    refine hbytes.trans ?_
    rw [hsum]
    exact Memory.readBytes_writeBytes_take (by omega) hfits.len_le

theorem inputSound (hunused : Unused s.mem.dev) {r : Option (List (List UInt8)) × Board σ b}
    (h : lowLevelInput B polls s = some r) : InputSound s r := by
  have hfits : 1600 ≤ 65535 * b.memblksize := fits_of_lt (by decide)
  simp only [lowLevelInput] at h
  split_ifs at h with hnull
  · obtain rfl := Option.some.inj h
    refine ⟨fun chain h => absurd h (by simp), ⟨[], (List.append_nil _).symm, fun a ha =>
      absurd ha List.not_mem_nil⟩, hunused.memmap_of_null hfits hnull⟩
  · obtain ⟨q, hq, rfl⟩ := Option.map_eq_some_iff.mp h
    have hfit : Sys.Fits maxFramelen q.1 := Sys.fits_packetReceive (by decide) (by decide) hq
    have hrange := (hunused.mymalloc_spec hfits).2 hnull
    have hmax : maxFramelen = 1518 := rfl
    obtain ⟨hreceived, hchain, hwrites, hdev⟩ :=
      takeFrame_spec hfit (by omega : (mymalloc 1600 s.mem.dev).1 + maxFramelen ≤ 2 ^ 32) q.2
    -- receiving leaves the controller alone
    have hhost : Board.host q.2 = (s.malloc 1600).2.host := (B.keeps_beside _).sysPacketReceive rfl hq
    have hmem : Board.mem q.2 = { s.mem with dev := (mymalloc 1600 s.mem.dev).2 } :=
      congrArg Host.mem hhost
    have hbuffer : (s.malloc 1600).1 = (mymalloc 1600 s.mem.dev).1 := rfl
    rw [hbuffer] at hnull ⊢
    refine ⟨fun chain h => ⟨q.1, ?_, hchain chain h⟩, ?_, ?_⟩
    · exact hreceived.trans (congrArg (fun h => h.received ++ [q.1]) hhost)
    · rw [hmem, Memory.writes_writeBytes] at hwrites
      refine (writesBlock_iff (m := s.mem) hwrites fun a ha => ?_).mpr (.inr hnull)
      have hlength := hfit.length_le
      have hin := mem_range_of_le (by omega) ha
      omega
    · rw [hdev, hmem]
      exact hunused.memmap_free hfits Memory.table_writeBytes.1
        (Memory.table_writeBytes.2.trans memrdy_mymalloc)

end Input

/-! ## Mailboxes -/

section New

variable {m : Memory b} {osqCreate : ℕ → ℕ → ℕ} {size : ℕ}

/-- The descriptor is cleared where the pointer says, block or no block. -/
theorem cleared_spec (m : Memory b) (n : ℕ) :
    (mymemset (mymalloc n m.dev).1 0 n { m with dev := (mymalloc n m.dev).2 }).writes = m.writes ++
        (List.range n).map (fun i => ((mymalloc n m.dev).1 + i) % 2 ^ 32) ∧
      (mymemset (mymalloc n m.dev).1 0 n { m with dev := (mymalloc n m.dev).2 }).dev.memmap =
        (mymalloc n m.dev).2.memmap ∧
      (mymemset (mymalloc n m.dev).1 0 n { m with dev := (mymalloc n m.dev).2 }).dev.memrdy = true :=
  ⟨writes_mymemset, table_mymemset.1, table_mymemset.2.trans memrdy_mymalloc⟩

/-- Without a block the descriptor at address 0 is cleared. -/
theorem not_newSound_of_null (hunused : Unused m.dev) (hnull : (mymalloc sizeofTqDescr m.dev).1 = 0) :
    ¬ NewSound osqCreate size m (sysMboxNew osqCreate size m) := by
  intro hsound
  have hrange : (mymalloc sizeofTqDescr m.dev).1 + sizeofTqDescr ≤ 2 ^ 32 :=
    range_of_lt hunused (by decide)
  obtain ⟨hwrites, -, -⟩ := cleared_spec m sizeofTqDescr
  have hblock := hsound.writes
  simp only [sysMboxNew, ite_gt_eq_min] at hblock
  rw [if_neg (not_not.mpr hnull)] at hblock
  rcases (writesBlock_iff hwrites fun a ha => mem_range_of_le hrange ha).mp hblock with hnone | hsome
  · exact absurd hnone (by simp)
  · exact hsome hnull

/-- With a block the descriptor is cleared and the queue stored in it; if there is no queue the
block is given back. -/
theorem newSound_of_block (hunused : Unused m.dev) (hnull : (mymalloc sizeofTqDescr m.dev).1 ≠ 0) :
    NewSound osqCreate size m (sysMboxNew osqCreate size m) := by
  have hfits : sizeofTqDescr ≤ 65535 * b.memblksize := fits_of_lt (by decide)
  have hrange : (mymalloc sizeofTqDescr m.dev).1 + sizeofTqDescr ≤ 2 ^ 32 :=
    range_of_lt hunused (by decide)
  obtain ⟨hwrites, hmap, hrdy⟩ := cleared_spec m sizeofTqDescr
  simp only [sysMboxNew, ite_gt_eq_min]
  generalize mymemset (mymalloc sizeofTqDescr m.dev).1 0 sizeofTqDescr
    { m with dev := (mymalloc sizeofTqDescr m.dev).2 } = cleared at *
  rw [if_pos hnull]
  obtain ⟨pQ, hpQ⟩ : ∃ pQ,
      osqCreate ((mymalloc sizeofTqDescr m.dev).1 + 4) (min size maxQueueEntries) = pQ := ⟨_, rfl⟩
  have hshort : (pointerBytes pQ).length ≤ sizeofTqDescr := (by decide : 4 ≤ sizeofTqDescr)
  have hpointer : (mymalloc sizeofTqDescr m.dev).1 + (pointerBytes pQ).length ≤ 2 ^ 32 :=
    (Nat.add_le_add_left hshort _).trans hrange
  have hfilled : (cleared.writeBytes (mymalloc sizeofTqDescr m.dev).1 (pointerBytes pQ)).writes =
      m.writes ++ ((List.range sizeofTqDescr).map (fun i =>
        ((mymalloc sizeofTqDescr m.dev).1 + i) % 2 ^ 32) ++
        (List.range (pointerBytes pQ).length).map fun i =>
          ((mymalloc sizeofTqDescr m.dev).1 + i) % 2 ^ 32) := by
    rw [Memory.writes_writeBytes, hwrites, List.append_assoc]
  have hblock {m' : Memory b} (hm' : m'.writes =
      (cleared.writeBytes (mymalloc sizeofTqDescr m.dev).1 (pointerBytes pQ)).writes) :
      WritesBlock m m' sizeofTqDescr := by
    refine (writesBlock_iff (hm'.trans hfilled) fun a ha => ?_).mpr (.inr hnull)
    rcases List.mem_append.mp ha with hin | hin
    · exact mem_range_of_le hrange hin
    · have hlow := mem_range_of_le hpointer hin
      exact ⟨hlow.1, hlow.2.trans_le (Nat.add_le_add_left hshort _)⟩
  obtain ⟨hmap', hrdy'⟩ : (cleared.writeBytes (mymalloc sizeofTqDescr m.dev).1
        (pointerBytes pQ)).dev.memmap = cleared.dev.memmap ∧
      (cleared.writeBytes (mymalloc sizeofTqDescr m.dev).1 (pointerBytes pQ)).dev.memrdy =
        cleared.dev.memrdy := Memory.table_writeBytes
  rw [hpQ]
  by_cases hqueue : pQ = 0
  · rw [if_neg (not_not.mpr hqueue)]
    exact ⟨.inr ⟨rfl, hunused.memmap_free hfits (hmap'.trans hmap) (hrdy'.trans hrdy)⟩, hblock rfl⟩
  · rw [if_pos hqueue]
    refine ⟨.inl ⟨rfl, rfl, hnull, hmap'.trans hmap, ?_, ?_⟩, hblock rfl⟩
    · rw [hpQ]
      exact hqueue
    · rw [hpQ]
      exact Memory.readBytes_writeBytes hpointer

theorem newSound_iff (hunused : Unused m.dev) :
    NewSound osqCreate size m (sysMboxNew osqCreate size m) ↔ HasRoom sizeofTqDescr m.dev := by
  have hfits : sizeofTqDescr ≤ 65535 * b.memblksize := fits_of_lt (by decide)
  have hroom : (mymalloc sizeofTqDescr m.dev).1 ≠ 0 ↔ HasRoom sizeofTqDescr m.dev :=
    (hunused.mymalloc_spec hfits).1.trans (and_iff_right (by decide))
  rw [← hroom]
  refine ⟨fun hsound hnull => ?_, newSound_of_block hunused⟩
  exact not_newSound_of_null hunused hnull hsound

end New

/-- **Allocation failure.** In every state of the allocator, sending and the creation of a mailbox
are sound exactly if there is room for their block (or nothing to send); receiving always is. -/
theorem survives_iff {B : Bus σ} {polls : ℕ} {s : Board σ b} (hunused : Unused s.mem.dev)
    (osqCreate : ℕ → ℕ → ℕ) (size : ℕ) {p : Pbuf} (hlen : p.totLen = p.payloads.flatten.length)
    {out : ℤ × Board σ b} (hout : lowLevelOutput B polls p s = some out)
    {inp : Option (List (List UInt8)) × Board σ b} (hinp : lowLevelInput B polls s = some inp) :
    (OutputSound p s out ↔ p.totLen = 0 ∨ HasRoom p.totLen s.mem.dev) ∧ InputSound s inp ∧
      (NewSound osqCreate size s.mem (sysMboxNew osqCreate size s.mem) ↔
        HasRoom sizeofTqDescr s.mem.dev) :=
  ⟨outputSound_iff hunused hlen hout, inputSound hunused hinp, newSound_iff hunused⟩

/-! A chain of two pieces. -/

/-- Five bytes in two pieces. -/
def twoPieces : Pbuf := ⟨5, [[1, 2, 3], [4, 5]], by decide⟩

/-- The memory of a controller that has just started is free. -/
theorem hasRoom_started {size : ℕ} (h : blocks sram size ≤ 1056) :
    HasRoom size (started sram).mem.dev :=
  ⟨0, (Nat.zero_add _).trans_le h, fun j _ _ => by
    simp [started, Board.mem, Board.host, boot, Buffer.peek]⟩

theorem unused_started : Unused (started sram).mem.dev := unused_of_reachable ⟨[], .nil⟩

/-- That controller, and a frame of three bytes that has arrived. -/
def threeBytes : Board (List UInt8) sram :=
  ⟨([0, 0x10, 7, 0, 0x80, 0, 7, 8, 9], (started sram).host), 0, fun _ => 0, false⟩

theorem received_takeFrame (buffer : ℕ) (r : Received) (s : Board σ b) :
    (takeFrame buffer r s).2.host.received = s.host.received ++ [r] ∧
      (takeFrame buffer r s).1.isSome = (pbufAlloc s.host.pbufs r.len).isSome := by
  rw [takeFrame]
  dsimp only
  split
  · rename_i halloc
    exact ⟨rfl, (congrArg Option.isSome halloc).symm⟩
  · rename_i lens halloc
    exact ⟨rfl, (congrArg Option.isSome halloc).symm⟩

theorem packetReceive_threeBytes :
    (Sys.packetReceive (Bus.delivering.beside (Host sram)) 1 maxFramelen
      (threeBytes.malloc 1600).2).map
        (fun r => (r.1, (Board.host r.2).received, (Board.host r.2).pbufs)) =
      some (⟨3, [7, 8, 9, 0]⟩, [], 20) := by
  decide +kernel

/-- Two pieces are sent, the frame is received, and a mailbox is created. -/
theorem survives_started :
    ∃ out inp, lowLevelOutput Bus.delivering 1 twoPieces threeBytes = some out ∧
      lowLevelInput Bus.delivering 1 threeBytes = some inp ∧
      (inp.2.host.received = [⟨3, [7, 8, 9, 0]⟩] ∧ inp.1.isSome) ∧
      OutputSound twoPieces threeBytes out ∧ InputSound threeBytes inp ∧
      NewSound (fun a _ => a) 10 threeBytes.mem
        (sysMboxNew (fun a _ => a) 10 threeBytes.mem) := by
  have hbuffer : ¬ (threeBytes.malloc 1600).1 = 0 :=
    (unused_started.mymalloc_spec (fits_of_lt (by decide))).1.mpr
      ⟨by decide, hasRoom_started (by decide)⟩
  have hout : ∃ out, lowLevelOutput Bus.delivering 1 twoPieces threeBytes = some out := ⟨_, rfl⟩
  have hinp : ∃ inp, lowLevelInput Bus.delivering 1 threeBytes = some inp ∧
      inp.2.host.received = [⟨3, [7, 8, 9, 0]⟩] ∧ inp.1.isSome := by
    obtain ⟨⟨r, u⟩, hu, hr⟩ := Option.map_eq_some_iff.mp packetReceive_threeBytes
    simp only [Prod.mk.injEq] at hr
    obtain ⟨rfl, hnone, hpool⟩ := hr
    obtain ⟨hreceived, hsome⟩ := received_takeFrame (threeBytes.malloc 1600).1 ⟨3, [7, 8, 9, 0]⟩ u
    rw [hnone, List.nil_append] at hreceived
    rw [hpool] at hsome
    refine ⟨_, ?_, hreceived, hsome⟩
    simp only [lowLevelInput, if_neg hbuffer, hu, Option.map_some]
  obtain ⟨out, hout⟩ := hout
  obtain ⟨inp, hinp, hreceived⟩ := hinp
  have hunused : Unused threeBytes.mem.dev := unused_started
  obtain ⟨houtput, hinput, hnew⟩ := survives_iff hunused (fun a _ => a) 10 rfl hout hinp
  exact ⟨out, inp, hout, hinp, hreceived, houtput.mpr (.inr (hasRoom_started (by decide))), hinput,
    hnew.mpr (hasRoom_started (by decide))⟩

/-- All blocks are in use. -/
def exhausted : Board Unit sram :=
  (started sram).withMem ⟨⟨fun _ => 1, fun _ => 0, true⟩, fun _ => 0, [], []⟩

/-- Without memory the chain is copied to address 0, sent from there, and reported as sent; a
descriptor is cleared there. -/
theorem not_survives_exhausted :
    ∃ out, lowLevelOutput (still fun _ => 0) 1 twoPieces exhausted = some out ∧
      out.1 = errOk ∧ out.2.mem.writes = [0, 1, 2, 3, 4] ∧ ¬ OutputSound twoPieces exhausted out ∧
      ¬ NewSound (fun a _ => a) 10 exhausted.mem (sysMboxNew (fun a _ => a) 10 exhausted.mem) := by
  have hunused : Unused exhausted.mem.dev := fun h => absurd h (by decide)
  have htaken (size : ℕ) (hpos : 0 < blocks sram size) : ¬ HasRoom size exhausted.mem.dev := by
    rintro ⟨o, hroom, hfree⟩
    have hpeek : exhausted.mem.dev.memmap.peek o = 1 := Buffer.peek_of_lt (by omega)
    exact absurd (hpeek.symm.trans (hfree o le_rfl (by omega))) one_ne_zero
  have hout : ∃ out, lowLevelOutput (still fun _ => 0) 1 twoPieces exhausted = some out := ⟨_, rfl⟩
  obtain ⟨out, hout⟩ := hout
  obtain ⟨hok, -, hwrites, -⟩ := lowLevelOutput_spec hunused rfl hout
  have hnull : (mymalloc 5 exhausted.mem.dev).1 = 0 := by
    by_contra hblock
    exact htaken 5 (by decide) ((hunused.mymalloc_spec (fits_of_lt (by decide))).1.mp hblock).2
  refine ⟨out, hout, hok, ?_, ?_, ?_⟩
  · exact hwrites.trans (by rw [show twoPieces.totLen = 5 from rfl, hnull]; rfl)
  · rw [outputSound_iff hunused rfl hout]
    exact fun h => h.elim (by decide) (htaken 5 (by decide))
  · rw [newSound_iff hunused]
    exact htaken _ (by decide)

end FanGateway.Net
