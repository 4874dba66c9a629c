import FanGateway.Enc28j60.Packet

/-!
# Frames in the receive buffer

The frames that wait to be read are a queue in the ring, from the frame that is read next
to the position where the chip will write. Storing a frame adds it at the end, reading
one takes the first.

How much room the chip sees depends on ERXRDPT. As long as it stands at the frame that is
read next, what is stored fits beside what waits to be read.
-/

namespace FanGateway.Enc28j60

open Lib

/-- From `next` on the ring holds the frames `rs`, each where it was stored, and nothing else:
the chip goes on writing behind them, and EPKTCNT counts them. -/
structure Fifo (c : Chip) (next : ℕ) (rs : List (ℕ × Frame)) : Prop where
  conf : Configured c
  idle : c.estat = 0
  queue : Ring.Queue rxSize Frame.encode Frame.size c.mem next (c.ptr Reg.erxwrptl) rs
  whole : ∀ r ∈ rs, r.2.Whole
  count : (c.regs Reg.epktcnt).toNat = rs.length

namespace Fifo

variable {c : Chip} {next : ℕ} {rs : List (ℕ × Frame)} {f : Frame} {a q : ℕ}

/-- The frames that the filters let through are whole. -/
theorem whole_of_accepts (h : Fifo c next rs) (haccepts : c.Accepts f) : f.Whole := by
  obtain ⟨hmin, hmax, hstatus, -⟩ := haccepts
  rw [h.conf.maxLength] at hmax
  exact ⟨hmin, hmax, hstatus h.conf.checked⟩

/-- The chip has room for what the ring does not hold, but for one byte. -/
theorem freeSpace (h : Fifo c next rs) (hread : c.ptr Reg.erxrdptl = next) :
    c.freeSpace = rxSize - 1 - Ring.total Frame.size (rs.map Prod.snd) := by
  have hlast := h.queue.last_eq
  rw [← hread] at hlast
  exact h.conf.freeSpace_eq (hread.trans_lt h.queue.first_lt) h.queue.room hlast

/-- A whole frame is stored if there is room for it and it can be counted. -/
theorem accepts (h : Fifo c next rs) (hread : c.ptr Reg.erxrdptl = next) (hf : f.Whole)
    (hroom : Ring.total Frame.size (rs.map Prod.snd) + f.size < rxSize) (hlt : rs.length < 255) :
    c.Accepts f := by
  refine ⟨hf.checksum, ?_, fun _ => hf.status, ?_, fun hfull => ?_⟩
  · rw [h.conf.maxLength]
    exact hf.length
  · rw [h.freeSpace hread]
    omega
  · have hcount := h.count
    rw [hfull] at hcount
    exact hlt.ne hcount.symm

/-- What the chip accepts fits beside the frames in the ring. -/
theorem room_of_accepts (h : Fifo c next rs) (hread : c.ptr Reg.erxrdptl = next)
    (haccepts : c.Accepts f) :
    Ring.total Frame.size (rs.map Prod.snd) + f.size < rxSize := by
  obtain ⟨-, -, -, hfree, -⟩ := haccepts
  have hroom := h.queue.room
  rw [h.freeSpace hread] at hfree
  omega

/-- A frame that is stored joins the others at the end. -/
theorem receive (h : Fifo c next rs) (haccepts : c.Accepts f)
    (hroom : Ring.total Frame.size (rs.map Prod.snd) + f.size < rxSize) :
    Fifo (c.receive f) next (rs ++ [(c.ptr Reg.erxwrptl, f)]) := by
  have hf := h.whole_of_accepts haccepts
  obtain ⟨-, -, -, -, hcount⟩ := haccepts
  have hlast := h.queue.last_lt
  have hpush := h.queue.push Frame.length_encode hroom
  -- the header points to where the frame ends, and so does the write pointer afterwards
  have hend : c.next^[f.size] (c.ptr Reg.erxwrptl) = (c.ptr Reg.erxwrptl + f.size) % rxSize :=
    h.conf.next_iterate hlast f.size
  have hstored := h.conf.storeBytes_eq hlast (f.encode ((c.ptr Reg.erxwrptl + f.size) % rxSize))
  rw [Frame.length_encode] at hstored
  have hbound : (c.ptr Reg.erxwrptl + f.size) % rxSize < 65536 :=
    (Nat.mod_lt _ (Nat.succ_pos _)).trans (by decide)
  rw [Chip.receive, hend]
  simp only [hstored]
  -- the set-up stays, the queue is one longer, and so is the count
  refine ⟨?_, h.idle, ?_, ?_, ?_⟩
  · refine Configured.withCount (Configured.setPtr ?_ (by decide))
    exact h.conf.of_regs fun _ _ => rfl
  · rw [Chip.ptr_withCount (by decide), Chip.ptr_setPtr hbound]
    exact hpush
  · intro r hr
    rcases List.mem_append.1 hr with hr | hr
    · exact h.whole r hr
    · rw [List.mem_singleton.1 hr]
      exact hf
  · have hlt := (c.regs Reg.epktcnt).toNat_lt
    have hne : (c.regs Reg.epktcnt).toNat ≠ 255 := fun heq => hcount (UInt8.toNat_inj.mp heq)
    have hadd : (c.regs Reg.epktcnt + 1).toNat = (c.regs Reg.epktcnt).toNat + 1 := by
      rw [UInt8.toNat_add, UInt8.toNat_one]
      omega
    rw [List.length_append, List.length_singleton, ← h.count]
    exact hadd

/-- The two read pointers do not concern the frames. -/
theorem setPtr (h : Fifo c next rs) {l : ℕ} (hl : l = Reg.erdptl ∨ l = Reg.erxrdptl) (p : ℕ) :
    Fifo (c.setPtr l p) next rs := by
  obtain ⟨hsetup, hapart, hcount⟩ : (l ∉ setupRegs ∧ l + 1 ∉ setupRegs) ∧
      Reg.Apart Reg.erxwrptl l ∧ Reg.epktcnt ≠ l ∧ Reg.epktcnt ≠ l + 1 := by
    rcases hl with rfl | rfl <;> decide
  refine ⟨h.conf.setPtr hsetup, h.idle, ?_, h.whole, ?_⟩
  · rw [Chip.ptr_setPtr_of_apart hapart]
    exact h.queue
  · have hregs : (c.setPtr l p).regs Reg.epktcnt = c.regs Reg.epktcnt := by
      simp only [Chip.setPtr, Function.update_of_ne hcount.1, Function.update_of_ne hcount.2]
    rw [hregs]
    exact h.count

/-- The oldest frame is taken out. -/
theorem pop (h : Fifo c next ((a, f) :: rs)) :
    Fifo c.counted ((next + f.size) % rxSize) rs where
  conf := h.conf.withCount
  idle := h.idle
  queue := by
    rw [Chip.counted, Chip.ptr_withCount (by decide)]
    exact h.queue.pop Frame.length_encode
  whole r hr := h.whole r (List.mem_cons_of_mem _ hr)
  count := by
    rw [Chip.toNat_count_counted, h.count]
    rfl

/-- With nothing in the ring there is nothing to count down. -/
theorem counted_nil (h : Fifo c next []) : Fifo c.counted next [] where
  conf := h.conf.withCount
  idle := h.idle
  queue := by
    rw [Chip.counted, Chip.ptr_withCount (by decide)]
    exact h.queue
  whole := h.whole
  count := by
    rw [Chip.toNat_count_counted, h.count]
    rfl

/-- The oldest frame is read. -/
theorem consume (h : Fifo c next ((a, f) :: rs)) :
    Fifo (c.consumed q ((next + f.size) % rxSize)) ((next + f.size) % rxSize) rs :=
  ((h.setPtr (.inl rfl) q).setPtr (.inr rfl) _).pop

end Fifo

end FanGateway.Enc28j60
