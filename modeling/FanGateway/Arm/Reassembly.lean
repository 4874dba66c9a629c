import FanGateway.Arm.Length

/-!
# Replies that arrive in pieces

The serial driver hands out whatever bytes have arrived. One call of the reader
takes a first piece and, if the message is not complete by its own count, makes
one more read for the rest. What that read does not get, because it has not
arrived yet or is more than five bytes, is taken by the next call, at the front of
the message again. A reply is put together exactly when one call gets all of it.
-/

namespace FanGateway.Arm

open Lib Modbus

/-! ## Successive calls -/

/-- Calls of `read_port` one after the other. -/
def runCalls (g : Globals) (calls : List Call) : Globals := calls.foldl (fun g c => c.after g) g

/-- The bytes that each of them takes. -/
def takes (g : Globals) : List Call → List (List UInt8)
  | [] => []
  | c :: calls => c.taken g :: takes (c.after g) calls

/-- How many bytes have been taken before each of the calls that take some. -/
def starts (offset : ℕ) : List (List UInt8) → List ℕ
  | [] => []
  | taken :: rest =>
    if taken = [] then starts offset rest else offset :: starts (offset + taken.length) rest

/-- Calls of `read_port` in which the driver hands out a reply. -/
structure Delivery (k : Slave) (data : Payload k) (g : Globals) where
  calls : List Call
  joined : (takes g calls).flatten = reply crc16 k data

/-- The data of the reply end up in its slave's block, and no call of the reader takes the
middle of the reply for a beginning. -/
def Delivery.Reassembled {k : Slave} {data : Payload k} {g : Globals} (d : Delivery k data g) :
    Prop :=
  (∀ i < k.size,
    (procData (runCalls g d.calls)).dataBuf.peek (k.start + 6 + i) = data.peek i) ∧
      ∀ start ∈ starts 0 (takes g d.calls), start = 0

/-- The reads of one call return a message: the first one all of it, or the two together. -/
def Call.Gets (c : Call) (message : List UInt8) : Prop :=
  ¬ (c.retval = 0 ∨ c.retval = -1) ∧ (c.first = some message ∨
    ∃ first second, c.first = some first ∧ c.second = some second ∧ first ≠ [] ∧
      first ++ second = message)

/-! ## One call -/

section Call

variable {g : Globals} {c : Call} {k : Slave} {data : Payload k} {first second : List UInt8}

/-- The beginning of a reply asks for more, whatever the message held before. -/
theorem wantsMore_of_beginning {rest : List UInt8} (hrest : rest ≠ [])
    (h : first ++ rest = reply crc16 k data) : WantsMore g first := by
  have hlength : first.length + rest.length = k.size + 5 := by
    rw [← List.length_append, h, length_reply, Slave.replyLength]
  have hmore := List.length_pos_iff.mpr hrest
  rw [WantsMore]
  by_cases hcount : first.length < 3
  · -- too short for any count
    omega
  · -- the count is that of the reply
    have hthird : (g.msg.blit 0 first).peek 2 = UInt8.ofNat k.size := by
      have hcell : (first ++ rest)[2]? = some (UInt8.ofNat k.size) := by
        rw [h]
        rfl
      rw [List.getElem?_append_left (by omega)] at hcell
      rw [Buffer.peek_blit, if_pos (by omega), hcell]
      rfl
    have hsize : (UInt8.ofNat k.size).toNat = k.size := by cases k <;> rfl
    rw [hthird, hsize]
    omega

/-- Two reads that together take a message of the length it counts publish it. -/
theorem readPort_of_split (hfirst : first ≠ []) (hmore : WantsMore g first)
    (hlong : 11 ≤ first.length + second.length) :
    readPort 1 (some first) (some second) g =
      { g with
        msg := g.msg.blit 0 (first ++ second)
        msgLength := ↑(first.length + second.length)
        modbusDataChange := true } := by
  have hpos : first.length ≠ 0 := (List.length_pos_iff.mpr hfirst).ne'
  have hnotshort : ¬ (first.length : ℤ) + second.length < 11 := by omega
  rw [WantsMore] at hmore
  rw [readPort_some]
  simp only [readInto, if_neg hpos, if_neg hmore.ne, if_pos hmore]
  rw [publish, if_neg hnotshort, Buffer.blit_append, Nat.zero_add, Nat.cast_add]

/-- What a call takes whose first read succeeds. -/
theorem Call.taken_of_some (h : ¬ (c.retval = 0 ∨ c.retval = -1)) (hfirst : c.first = some first) :
    c.taken g = first ++ if 0 < first.length ∧ WantsMore g first then c.second.getD [] else [] := by
  rw [taken, reads_of_some h hfirst]
  split_ifs <;> simp

/-- A call that takes nothing changes nothing. -/
theorem Call.after_of_taken_eq_nil (h : c.taken g = []) : c.after g = g := by
  by_cases hidle : c.retval = 0 ∨ c.retval = -1
  · exact after_of_idle hidle
  · rw [after_of_ready hidle]
    cases hfirst : c.first with
    | none => rfl
    | some first =>
      rw [taken_of_some hidle hfirst, List.append_eq_nil_iff] at h
      obtain ⟨rfl, -⟩ := h
      rw [readPort_some, List.length_nil, if_pos rfl, Buffer.blit_nil]

end Call

/-! ## Whole deliveries -/

section Deliveries

variable {k : Slave} {data : Payload k} {g : Globals} {c : Call}

/-- The globals with the reply published. -/
def published (k : Slave) (data : Payload k) (g : Globals) : Globals :=
  { g with
    msg := g.msg.blit 0 (reply crc16 k data)
    msgLength := k.replyLength
    modbusDataChange := true }

theorem slice_published :
    (published k data g).msg.slice 0 k.replyLength = reply crc16 k data := by
  have hfits : k.replyLength ≤ 40 := by cases k <;> decide
  have hread (bytes : List UInt8) (h : bytes.length = k.replyLength) :
      (g.msg.blit 0 bytes).slice 0 k.replyLength = bytes := by
    rw [← h]
    exact Buffer.slice_blit (by omega)
  exact hread _ length_reply

/-- A reply counts its own bytes. -/
theorem count_published :
    k.replyLength = ((published k data g).msg.peek 2).toNat + 5 := by
  have hlong : 11 ≤ k.replyLength := by cases k <;> decide
  have hcell : (reply crc16 k data)[2]? = some (UInt8.ofNat k.size) := rfl
  rw [← slice_published (g := g), Buffer.getElem?_slice, if_pos (by omega)] at hcell
  rw [Option.some.inj hcell]
  cases k <;> rfl

/-- One read that takes the whole reply publishes it, and asks for no more. -/
theorem readPort_reply (second : Option (List UInt8)) :
    readPort 1 (some (reply crc16 k data)) second g = published k data g := by
  have hlong : 11 ≤ k.replyLength := by cases k <;> decide
  rw [readPort_of_whole (by decide) (by rw [length_reply]; exact hlong)
    (by rw [length_reply]; exact count_published), length_reply]
  rfl

theorem not_wantsMore_reply : ¬ WantsMore g (reply crc16 k data) := by
  have hcount : k.replyLength = ((published k data g).msg.peek 2).toNat + 5 := count_published
  rw [WantsMore, length_reply]
  exact Nat.not_lt.mpr hcount.ge

/-- Two reads that take the whole reply publish it too. -/
theorem readPort_reply_split {first second : List UInt8} (hfirst : first ≠ [])
    (hsecond : second ≠ []) (h : first ++ second = reply crc16 k data) :
    readPort 1 (some first) (some second) g = published k data g := by
  have hlong : 11 ≤ k.replyLength := by cases k <;> decide
  have hlength : first.length + second.length = k.replyLength := by
    rw [← List.length_append, h, length_reply]
  rw [readPort_of_split hfirst (wantsMore_of_beginning hsecond h) (by omega), h, hlength]
  rfl

/-- The call that gets the reply takes it and publishes it. -/
theorem Call.Gets.spec (h : c.Gets (reply crc16 k data)) :
    c.taken g = reply crc16 k data ∧ c.after g = published k data g := by
  obtain ⟨hready, hfirst | ⟨first, second, hfirst, hsecond, hne, hjoined⟩⟩ := h
  · rw [taken_of_some hready hfirst, after_of_ready hready, hfirst, readPort_reply,
      if_neg fun hmore => not_wantsMore_reply hmore.2, List.append_nil]
    exact ⟨rfl, rfl⟩
  · by_cases hrest : second = []
    · obtain rfl : first = reply crc16 k data := by rw [← hjoined, hrest, List.append_nil]
      rw [taken_of_some hready hfirst, after_of_ready hready, hfirst, readPort_reply,
        if_neg fun hmore => not_wantsMore_reply hmore.2, List.append_nil]
      exact ⟨rfl, rfl⟩
    · have hmore : 0 < first.length ∧ WantsMore g first :=
        ⟨List.length_pos_iff.mpr hne, wantsMore_of_beginning hrest hjoined⟩
      rw [taken_of_some hready hfirst, after_of_ready hready, hfirst, hsecond, if_pos hmore,
        readPort_reply_split hne hrest hjoined]
      exact ⟨hjoined, rfl⟩

/-- A call that takes a reply gets it. -/
theorem Call.gets_of_taken (h : c.taken g = reply crc16 k data) : c.Gets (reply crc16 k data) := by
  have hne : reply crc16 k data ≠ [] := List.cons_ne_nil _ _
  by_cases hidle : c.retval = 0 ∨ c.retval = -1
  · rw [taken, reads, Logged.readPort, if_pos hidle] at h
    exact absurd h.symm hne
  · refine ⟨hidle, ?_⟩
    cases hfirst : c.first with
    | none =>
      rw [taken, reads, Logged.readPort, if_neg hidle, hfirst] at h
      exact absurd h.symm hne
    | some first =>
      rw [taken_of_some hidle hfirst] at h
      split_ifs at h with hmore
      · cases hsecond : c.second with
        | none =>
          rw [hsecond, Option.getD_none, List.append_nil] at h
          exact .inl (congrArg some h)
        | some second =>
          rw [hsecond, Option.getD_some] at h
          exact .inr ⟨first, second, rfl, rfl, List.length_pos_iff.mp hmore.1, h⟩
      · rw [List.append_nil] at h
        exact .inl (congrArg some h)

/-- Processing a published reply stores its data. -/
theorem stored_of_published :
    ∀ i < k.size, (procData (published k data g)).dataBuf.peek (k.start + 6 + i) =
      data.peek i := by
  have hflag : (published k data g).modbusDataChange = true := rfl
  have hslice : (published k data g).msg.slice 0 k.replyLength = reply crc16 k data :=
    slice_published
  rw [procData, if_pos hflag]
  exact checkAndCopy_of_reply hslice rfl

end Deliveries

/-! ### What is taken by one call -/

section Starts

variable {l : List (List UInt8)} {offset : ℕ}

/-- Calls that take nothing begin nowhere. -/
theorem starts_of_flatten_eq_nil (h : l.flatten = []) : starts offset l = [] := by
  induction l with
  | nil => rfl
  | cons taken rest ih =>
    rw [List.flatten_cons, List.append_eq_nil_iff] at h
    rw [starts, if_pos h.1, ih h.2]

/-- Behind the beginning nothing more is taken. -/
theorem flatten_eq_nil_of_starts (hpos : 0 < offset) (h : ∀ start ∈ starts offset l, start = 0) :
    l.flatten = [] := by
  induction l with
  | nil => rfl
  | cons taken rest ih =>
    rw [starts] at h
    split_ifs at h with htaken
    · rw [List.flatten_cons, htaken, List.nil_append, ih h]
    · exact absurd (h offset List.mem_cons_self) hpos.ne'

/-- If all calls that take something begin at the front, one of them takes all there is. -/
theorem flatten_mem_of_starts (hne : l.flatten ≠ []) (h : ∀ start ∈ starts 0 l, start = 0) :
    l.flatten ∈ l := by
  induction l with
  | nil => exact absurd rfl hne
  | cons taken rest ih =>
    rw [starts] at h
    rw [List.flatten_cons] at hne ⊢
    split_ifs at h with htaken
    · rw [htaken, List.nil_append] at hne ⊢
      exact List.mem_cons_of_mem _ (ih hne h)
    · have hpos : 0 < 0 + taken.length := by
        rw [Nat.zero_add]
        exact List.length_pos_iff.mpr htaken
      rw [flatten_eq_nil_of_starts hpos fun start hstart => h start (List.mem_cons_of_mem _ hstart),
        List.append_nil]
      exact List.mem_cons_self

end Starts

section Results

variable {k : Slave} {data : Payload k} {g : Globals}

/-- Each of the takes is that of one of the calls. -/
theorem exists_of_mem_takes {calls : List Call} {taken : List UInt8} (h : taken ∈ takes g calls) :
    ∃ c ∈ calls, ∃ g', c.taken g' = taken := by
  induction calls generalizing g with
  | nil => exact absurd h List.not_mem_nil
  | cons c calls ih =>
    rcases List.mem_cons.mp h with rfl | h
    · exact ⟨c, List.mem_cons_self, g, rfl⟩
    · obtain ⟨c', hc', hrest⟩ := ih h
      exact ⟨c', List.mem_cons_of_mem _ hc', hrest⟩

/-- A call that gets the reply takes it wherever it comes. -/
theorem mem_takes_of_gets {calls : List Call} {c : Call} (hc : c ∈ calls)
    (h : c.Gets (reply crc16 k data)) : reply crc16 k data ∈ takes g calls := by
  induction calls generalizing g with
  | nil => exact absurd hc List.not_mem_nil
  | cons c' calls ih =>
    rcases List.mem_cons.mp hc with rfl | hc
    · rw [takes, h.spec.1]
      exact List.mem_cons_self
    · exact List.mem_cons_of_mem _ (ih hc)

theorem runCalls_of_flatten_eq_nil {calls : List Call} (h : (takes g calls).flatten = []) :
    runCalls g calls = g := by
  induction calls generalizing g with
  | nil => rfl
  | cons c calls ih =>
    rw [takes, List.flatten_cons, List.append_eq_nil_iff] at h
    have hafter := Call.after_of_taken_eq_nil h.1
    rw [hafter] at h
    change runCalls (c.after g) calls = g
    rw [hafter, ih h.2]

/-- If one call gets the reply, the others take nothing. -/
theorem runCalls_of_gets {calls : List Call}
    (hjoined : (takes g calls).flatten = reply crc16 k data)
    (hgets : ∃ c ∈ calls, c.Gets (reply crc16 k data)) :
    runCalls g calls = published k data g ∧ ∀ start ∈ starts 0 (takes g calls), start = 0 := by
  induction calls generalizing g with
  | nil =>
    obtain ⟨c, hc, -⟩ := hgets
    exact absurd hc List.not_mem_nil
  | cons c calls ih =>
    rw [takes, List.flatten_cons] at hjoined
    change runCalls (c.after g) calls = _ ∧ _
    rw [takes, starts]
    by_cases htaken : c.taken g = []
    · have hafter := Call.after_of_taken_eq_nil htaken
      rw [htaken, List.nil_append, hafter] at hjoined
      rw [if_pos htaken, hafter]
      refine ih hjoined ?_
      obtain ⟨c', hc', hall⟩ := hgets
      rcases List.mem_cons.mp hc' with rfl | hc'
      · exact absurd (htaken.symm.trans hall.spec.1).symm (List.cons_ne_nil _ _)
      · exact ⟨c', hc', hall⟩
    · -- the first call that takes something is the one that gets the reply
      have hrest : (takes (c.after g) calls).flatten = [] := by
        obtain ⟨c', hc', hall⟩ := hgets
        rcases List.mem_cons.mp hc' with rfl | hc'
        · rw [hall.spec.1] at hjoined
          exact List.append_right_eq_self.mp hjoined
        · obtain ⟨l₁, l₂, hsplit⟩ := List.append_of_mem (mem_takes_of_gets (g := c.after g) hc' hall)
          have hlength := congrArg List.length hjoined
          rw [hsplit, List.flatten_append, List.flatten_cons] at hlength
          simp only [List.length_append] at hlength
          exact absurd (List.eq_nil_of_length_eq_zero (by omega)) htaken
      rw [hrest, List.append_nil] at hjoined
      rw [if_neg htaken, starts_of_flatten_eq_nil hrest, runCalls_of_flatten_eq_nil hrest]
      exact ⟨(Call.gets_of_taken hjoined).spec.2, fun start hstart => List.mem_singleton.mp hstart⟩

/-- **Reassembly.** However the driver splits a reply and whatever the message held before,
the reply is put together exactly when the reads of one call return all of it. -/
theorem reassembled_iff (d : Delivery k data g) :
    d.Reassembled ↔ ∃ c ∈ d.calls, c.Gets (reply crc16 k data) := by
  have hne : reply crc16 k data ≠ [] := List.cons_ne_nil _ _
  constructor
  · rintro ⟨-, hstarts⟩
    have hmem := flatten_mem_of_starts (by rw [d.joined]; exact hne) hstarts
    rw [d.joined] at hmem
    obtain ⟨c, hc, g', htaken⟩ := exists_of_mem_takes hmem
    exact ⟨c, hc, Call.gets_of_taken htaken⟩
  · intro hgets
    obtain ⟨hrun, hstarts⟩ := runCalls_of_gets d.joined hgets
    refine ⟨?_, hstarts⟩
    rw [hrun]
    exact stored_of_published

end Results

/-! ## A reply in two pieces -/

/-- The reply of slave 1 with data bytes 0. -/
def zeros : List UInt8 := reply crc16 .one fun _ => 0

/-- A read that fails stores nothing. -/
theorem none_le : ∀ bytes ∈ (none : Option (List UInt8)), bytes.length ≤ 5 :=
  fun bytes h => absurd h (Option.not_mem_none bytes)

/-- Sixteen bytes have arrived when the first call reads, and no more when it reads again. -/
def firstCall : Call where
  retval := 1
  first := some (zeros.take 16)
  second := none
  first_le bytes h := by
    obtain rfl := Option.some.inj h
    exact (List.length_take_le _ _).trans (by decide)
  second_le := none_le

/-- The next call gets the other five. -/
def secondCall : Call where
  retval := 1
  first := some (zeros.drop 16)
  second := none
  first_le bytes h := by
    have hlength : zeros.length = 21 := length_reply
    obtain rfl := Option.some.inj h
    rw [List.length_drop, hlength]
    decide
  second_le := none_le

def sixteenFive : Delivery .one (fun _ => 0) boot where
  calls := [firstCall, secondCall]
  joined := by
    have hfirst : firstCall.taken boot = zeros.take 16 := by
      rw [Call.taken_of_some (by decide) rfl]
      exact (congrArg _ (ite_self _)).trans (List.append_nil _)
    have hsecond (g : Globals) : secondCall.taken g = zeros.drop 16 := by
      rw [Call.taken_of_some (by decide) rfl]
      exact (congrArg _ (ite_self _)).trans (List.append_nil _)
    rw [takes, takes, takes, hfirst, hsecond, List.flatten_cons, List.flatten_cons,
      List.flatten_nil, List.append_nil, List.take_append_drop]
    rfl

/-- The five bytes are read to the front of the message. -/
theorem sixteenFive_not_reassembled : ¬ sixteenFive.Reassembled := by
  rw [reassembled_iff]
  have hlength : zeros.length = 21 := length_reply
  have hzeros : reply crc16 .one (fun _ => 0) = zeros := rfl
  rintro ⟨c, hc, -, hgets⟩
  rw [hzeros] at hgets
  rcases List.mem_cons.mp hc with rfl | hc
  · rcases hgets with hfirst | ⟨_, second, -, hsecond, -⟩
    · have hshort := congrArg List.length (Option.some.inj hfirst)
      rw [List.length_take, hlength] at hshort
      exact absurd hshort (by decide)
    · cases hsecond
  · obtain rfl := List.mem_singleton.mp hc
    rcases hgets with hfirst | ⟨_, second, -, hsecond, -⟩
    · have hshort := congrArg List.length (Option.some.inj hfirst)
      rw [List.length_drop, hlength] at hshort
      exact absurd hshort (by decide)
    · cases hsecond

end FanGateway.Arm
