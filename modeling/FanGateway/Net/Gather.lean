import FanGateway.Lib.Buffer
import FanGateway.Lib.Machine
import Mathlib.Data.UInt

/-!
# Gathering a chain of buffers

The network stack hands out what it has received as a chain of buffers. A task copies
them one behind the other into an array of its own, as far as there is room. The room is
an unsigned difference, and the running length may exceed the size of the array; then the
loop is left before another difference is taken.

What the array holds in the end is the beginning of what was received, followed by zeros,
however it was split.
-/

namespace FanGateway.Net

open Lib

/-- A buffer of a chain. Its length is a 16-bit number. -/
structure Segment where
  payload : List UInt8
  length_lt : payload.length < 65536

/-- The bytes of a chain. -/
def payload (chain : List Segment) : List UInt8 := chain.flatMap Segment.payload

/-- A difference that was taken: the running length, and the room that came out. -/
structure Room where
  dataLen : ℕ
  left : ℕ

/-- The array of a task, with the positions stored to, the running length and the
differences taken so far. -/
structure Gather (n : ℕ) where
  recvbuf : Traced UInt8 n
  dataLen : ℕ
  rooms : List Room

namespace Gather

variable {n : ℕ}

/-- The array after a reset. -/
def boot : Gather n := ⟨⟨fun _ => 0, []⟩, 0, []⟩

/-- `RX_BUFSIZE - data_len`, of unsigned 32-bit numbers. -/
def left (s : Gather n) : ℕ := (n + 2 ^ 32 - s.dataLen) % 2 ^ 32

/-- Take the difference once. -/
def takeRoom (s : Gather n) : Gather n := { s with rooms := s.rooms ++ [⟨s.dataLen, s.left⟩] }

/-- `memset(recvbuf, 0, RX_BUFSIZE)`. -/
def memset (s : Gather n) : Gather n :=
  { s with recvbuf := forRange 0 n (fun t buf => buf.store (t + 0) 0) s.recvbuf }

/-- `memcpy(recvbuf + data_len, payload, count)`. -/
def memcpy (payload : List UInt8) (count : ℕ) (s : Gather n) : Gather n :=
  { s with
    recvbuf :=
      forRange 0 count (fun t buf => buf.store (t + s.dataLen) (payload[t]?.getD default))
        s.recvbuf }

/-- One round of the loop, up to the test of the running length. -/
def copySegment (q : Segment) (s : Gather n) : Gather n :=
  let s := s.takeRoom
  let s :=
    if q.payload.length > s.left then s.takeRoom.memcpy q.payload s.left
    else s.memcpy q.payload q.payload.length
  { s with dataLen := (s.dataLen + q.payload.length) % 2 ^ 32 }

/-- The loop over the chain. -/
def copyLoop : List Segment → Gather n → Gather n
  | [], s => s
  | q :: chain, s =>
    let s := copySegment q s
    if s.dataLen > n then s else copyLoop chain s

/-- What a task does with a chain. -/
def gather (chain : List Segment) (s : Gather n) : Gather n :=
  { copyLoop chain s.memset with dataLen := 0 }

/-- No position behind the array was stored to, and all differences are those of integers. -/
structure Safe (s : Gather n) : Prop where
  trace_lt : ∀ i ∈ s.recvbuf.trace, i < n
  rooms_eq : ∀ r ∈ s.rooms, (r.left : ℤ) = n - r.dataLen

/-- The array holds the beginning of some bytes, and zeros behind them. -/
def Has (s : Gather n) (bytes : List UInt8) : Prop :=
  s.recvbuf.cells.slice 0 n = bytes.take n ++ List.replicate (n - bytes.length) 0

theorem safe_boot : (boot : Gather n).Safe :=
  ⟨fun _ hi => absurd hi List.not_mem_nil, fun _ hr => absurd hr List.not_mem_nil⟩

theorem has_of_peek {s : Gather n} {bytes : List UInt8}
    (h : ∀ i < n, s.recvbuf.peek i = bytes[i]?.getD 0) : s.Has bytes := by
  apply List.ext_getElem?
  intro i
  rw [Buffer.getElem?_slice, Nat.zero_add]
  by_cases hi : i < n
  · rw [if_pos hi]
    refine (congrArg some (h i hi)).trans ?_
    by_cases hbytes : i < bytes.length
    · rw [List.getElem?_append_left (by rw [List.length_take]; omega), List.getElem?_take,
        if_pos hi, List.getElem?_eq_getElem hbytes]
      rfl
    · rw [List.getElem?_append_right (by rw [List.length_take]; omega), List.getElem?_replicate,
        if_pos (by rw [List.length_take]; omega), List.getElem?_eq_none (by omega)]
      rfl
  · rw [if_neg hi, List.getElem?_eq_none]
    rw [List.length_append, List.length_take, List.length_replicate]
    omega

/-! ## One round -/

section Round

variable {s : Gather n} {bytes : List UInt8}

theorem peek_memcpy {data : List UInt8} {count j : ℕ} :
    (s.memcpy data count).recvbuf.peek j =
      if s.dataLen ≤ j ∧ j < s.dataLen + count ∧ j < n then data[j - s.dataLen]?.getD default
      else s.recvbuf.peek j := by
  rw [memcpy, Traced.peek_forRange_store]
  exact if_congr (by omega) rfl rfl

theorem trace_memcpy {data : List UInt8} {count : ℕ} :
    (s.memcpy data count).recvbuf.trace =
      s.recvbuf.trace ++ List.range' s.dataLen count := by
  rw [memcpy, Traced.trace_forRange_store (Nat.zero_le _), Nat.zero_add, Nat.sub_zero]

/-- The difference is one of integers as long as the running length fits the array. -/
theorem left_eq (hn : n < 2 ^ 32) (h : s.dataLen ≤ n) : s.left = n - s.dataLen := by
  have hwrapped : n + 2 ^ 32 - s.dataLen = n - s.dataLen + 2 ^ 32 := by omega
  rw [left, hwrapped, Nat.add_mod_right, Nat.mod_eq_of_lt (by omega)]

theorem Safe.takeRoom (h : s.Safe) (hn : n < 2 ^ 32) (hfits : s.dataLen ≤ n) :
    s.takeRoom.Safe := by
  refine ⟨h.trace_lt, fun r hr => ?_⟩
  rcases List.mem_append.mp hr with hr | hr
  · exact h.rooms_eq r hr
  · obtain rfl := List.mem_singleton.mp hr
    rw [left_eq hn hfits]
    exact Int.ofNat_sub hfits

theorem Safe.memcpy (h : s.Safe) (data : List UInt8) {count : ℕ}
    (hfits : s.dataLen + count ≤ n) : (s.memcpy data count).Safe := by
  refine ⟨fun i hi => ?_, h.rooms_eq⟩
  rw [trace_memcpy] at hi
  rcases List.mem_append.mp hi with hi | hi
  · exact h.trace_lt i hi
  · have hrange := List.mem_range'_1.mp hi
    omega

/-- Some bytes have been copied, as far as they fit, and the running length is theirs. -/
structure Copied (s : Gather n) (bytes : List UInt8) : Prop where
  cells : ∀ i < n, s.recvbuf.peek i = bytes[i]?.getD 0
  dataLen : s.dataLen = bytes.length
  safe : s.Safe

theorem Copied.takeRoom (h : s.Copied bytes) (hn : n < 2 ^ 32) (hfits : bytes.length ≤ n) :
    s.takeRoom.Copied bytes :=
  ⟨h.cells, h.dataLen, h.safe.takeRoom hn (h.dataLen.trans_le hfits)⟩

/-- A copy of as much as there is room for. -/
theorem Copied.peek_memcpy {data : List UInt8} {count i : ℕ} (h : s.Copied bytes)
    (hcount : count = min data.length (n - bytes.length)) (hi : i < n) :
    (s.memcpy data count).recvbuf.peek i = (bytes ++ data)[i]?.getD 0 := by
  rw [Gather.peek_memcpy, h.dataLen, h.cells i hi]
  by_cases hbefore : i < bytes.length
  · rw [if_neg (by omega), List.getElem?_append_left hbefore]
  · rw [List.getElem?_append_right (by omega)]
    by_cases hdata : i - bytes.length < data.length
    · rw [if_pos (by omega)]
      rfl
    · rw [if_neg (by omega), List.getElem?_eq_none (by omega), List.getElem?_eq_none (by omega)]

/-- A round copies one more buffer. -/
theorem Copied.copySegment (h : s.Copied bytes) (hn : n + 65536 ≤ 2 ^ 32)
    (hfits : bytes.length ≤ n) (q : Segment) :
    (s.copySegment q).Copied (bytes ++ q.payload) := by
  have hq := q.length_lt
  have htest := h.takeRoom (by omega) hfits
  have hleft : s.takeRoom.left = n - bytes.length := by
    rw [left_eq (by omega) (htest.dataLen.trans_le hfits), htest.dataLen]
  have hsum (t : Gather n) (ht : t.dataLen = bytes.length) :
      (t.dataLen + q.payload.length) % 2 ^ 32 = (bytes ++ q.payload).length := by
    rw [ht, List.length_append, Nat.mod_eq_of_lt (by omega)]
  rw [Gather.copySegment]
  -- the buffer is longer than the room or fits
  split_ifs with hlong
  · have hcount : s.takeRoom.left = min q.payload.length (n - bytes.length) := by omega
    have hcopy := htest.takeRoom (by omega) hfits
    have hroom : s.takeRoom.takeRoom.dataLen + s.takeRoom.left ≤ n := by
      rw [hcopy.dataLen]
      omega
    have hsafe := hcopy.safe.memcpy q.payload hroom
    exact ⟨fun i hi => hcopy.peek_memcpy hcount hi, hsum _ hcopy.dataLen,
      hsafe.trace_lt, hsafe.rooms_eq⟩
  · have hcount : q.payload.length = min q.payload.length (n - bytes.length) := by omega
    have hroom : s.takeRoom.dataLen + q.payload.length ≤ n := by
      rw [htest.dataLen]
      omega
    have hsafe := htest.safe.memcpy q.payload hroom
    exact ⟨fun i hi => htest.peek_memcpy hcount hi, hsum _ htest.dataLen,
      hsafe.trace_lt, hsafe.rooms_eq⟩

end Round

/-! ## A whole chain -/

section Chain

variable {s : Gather n} {bytes : List UInt8}

/-- Clearing the array leaves it safe, and with nothing copied. -/
theorem copied_memset (hsafe : s.Safe) (hzero : s.dataLen = 0) : s.memset.Copied [] := by
  refine ⟨fun i hi => ?_, hzero, fun i hi => ?_, hsafe.rooms_eq⟩
  · rw [memset, Traced.peek_forRange_store (g := fun _ => 0), if_pos (by omega)]
    rfl
  · rw [memset, Traced.trace_forRange_store (g := fun _ => 0) (Nat.zero_le n)] at hi
    rcases List.mem_append.mp hi with hi | hi
    · exact hsafe.trace_lt i hi
    · have hrange := List.mem_range'_1.mp hi
      omega

/-- The loop is left with the whole chain copied, as far as it fits. -/
theorem Copied.copyLoop (h : s.Copied bytes) (hn : n + 65536 ≤ 2 ^ 32)
    (hfits : bytes.length ≤ n) (chain : List Segment) :
    (∀ i < n, (copyLoop chain s).recvbuf.peek i = (bytes ++ payload chain)[i]?.getD 0) ∧
      (Gather.copyLoop chain s).Safe := by
  -- induction on the chain; before each round no more has been copied than fits
  induction chain generalizing s bytes with
  | nil =>
    rw [payload, List.flatMap_nil, List.append_nil]
    exact ⟨h.cells, h.safe⟩
  | cons q chain ih =>
    have hround := h.copySegment hn hfits q
    rw [payload, List.flatMap_cons, ← List.append_assoc, Gather.copyLoop]
    split_ifs with hfull
    · refine ⟨fun i hi => ?_, hround.safe⟩
      rw [hround.dataLen] at hfull
      rw [hround.cells i hi, List.getElem?_append_left (hi.trans hfull)]
    · refine ih hround ?_
      rw [← hround.dataLen]
      exact not_lt.mp hfull

end Chain

/-- What a task ought to do with a chain: its array holds the beginning of the bytes received
and zeros behind them, and the next chain starts from 0. -/
structure Gathers (s : Gather n) (chain : List Segment) : Prop where
  has : (gather chain s).Has (payload chain)
  safe : (gather chain s).Safe
  dataLen_eq : (gather chain s).dataLen = 0

/-- **Gathering.** From a running length of 0 every chain is gathered, if the array is small
against the numbers. -/
theorem gathers {s : Gather n} (hn : n + 65536 ≤ 2 ^ 32) (hsafe : s.Safe)
    (hzero : s.dataLen = 0) (chain : List Segment) : s.Gathers chain := by
  have hloop := (copied_memset hsafe hzero).copyLoop hn (Nat.zero_le n) chain
  exact ⟨has_of_peek hloop.1, ⟨hloop.2.trace_lt, hloop.2.rooms_eq⟩, rfl⟩

end Gather

/-! ## A task that receives -/

section Receives

variable {σ ε : Type*} {n : ℕ}

/-- In every run of a task its array is used safely, every chain starts from 0, and a chain that
is received is what the array then holds. -/
def Receives (m : Machine σ ε) (gather : σ → Gather n) (receive : List Segment → ε) : Prop :=
  ∀ s, m.Reachable s → (gather s).Safe ∧ (gather s).dataLen = 0 ∧
    ∀ chain t, m.step s (receive chain) = some t → (gather t).Has (payload chain)

/-- A task receives if it gathers the chains it is given, and the others of its steps leave the
array alone. -/
theorem receives_of_step {m : Machine σ ε} {gather : σ → Gather n}
    {receive : List Segment → ε} (hn : n + 65536 ≤ 2 ^ 32) (hinit : gather m.init = .boot)
    (hreceive : ∀ s chain t, m.Reachable s → m.step s (receive chain) = some t →
      gather t = (gather s).gather chain)
    (hother : ∀ s e t, m.step s e = some t →
      gather t = gather s ∨ ∃ chain, gather t = (gather s).gather chain) :
    Receives m gather receive := by
  have hinv {s : σ} (h : m.Reachable s) : (gather s).Safe ∧ (gather s).dataLen = 0 := by
    refine h.invariant (P := fun s => (gather s).Safe ∧ (gather s).dataLen = 0) ?_ ?_
    · rw [hinit]
      exact ⟨Gather.safe_boot, rfl⟩
    · rintro s e t ⟨hsafe, hzero⟩ hstep
      rcases hother s e t hstep with heq | ⟨chain, heq⟩
      · rw [heq]
        exact ⟨hsafe, hzero⟩
      · have hgathers := Gather.gathers hn hsafe hzero chain
        rw [heq]
        exact ⟨hgathers.safe, hgathers.dataLen_eq⟩
  intro s h
  obtain ⟨hsafe, hzero⟩ := hinv h
  refine ⟨hsafe, hzero, fun chain t hstep => ?_⟩
  rw [hreceive s chain t h hstep]
  exact (Gather.gathers hn hsafe hzero chain).has

end Receives

end FanGateway.Net
