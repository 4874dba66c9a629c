import FanGateway.Lwip.Search

/-!
# Copying into and out of a packet

A packet is a chain of buffers, and the bytes copied into it or out of it run through them. What is
copied out is what the chain holds, read as one, and what has been copied in is copied out again.
-/

namespace FanGateway.Lwip

namespace Payloads

def errOk : ℤ := 0
def errArg : ℤ := -14

/-- The loop of `pbuf_copy_partial`, with the bytes copied and their number. -/
def copyLoop : Payloads → ℕ → ℕ → List UInt8 × ℕ
  | [], _, _ => ([], 0)
  | d :: p, len, offset =>
    if len = 0 then ([], 0)
    else if offset ≠ 0 ∧ offset ≥ d.length then copyLoop p len (offset - d.length)
    else
      let bufCopyLen := if d.length - offset > len then len else d.length - offset
      let rest := copyLoop p (len - bufCopyLen) 0
      ((d.drop offset).take bufCopyLen ++ rest.1, (bufCopyLen + rest.2) % 2 ^ 16)

/-- `pbuf_copy_partial`. -/
def pbufCopyPartial (p : Payloads) (len offset : UInt16) : List UInt8 × ℕ :=
  copyLoop p len.toNat offset.toNat

/-- The loop of `pbuf_take`, which needs a buffer as long as there are bytes to copy. -/
def takeLoop : Payloads → List UInt8 → Option Payloads
  | p, [] => some p
  | [], _ :: _ => none
  | d :: p, x :: data =>
    let bufCopyLen := min (x :: data).length d.length
    (takeLoop p ((x :: data).drop bufCopyLen)).map
      fun q => ((x :: data).take bufCopyLen ++ d.drop bufCopyLen) :: q

/-- `pbuf_take`, with the error it answers. No buffers are the null pointer, for which it answers
success. -/
def pbufTake (p : Payloads) (data : List UInt8) : Option (Payloads × ℤ) :=
  if p = [] then some (p, errOk)
  else if p.totLen < data.length then some (p, errArg)
  else (takeLoop p data).map fun q => (q, errOk)

variable {p : Payloads} {data : List UInt8} {len offset : ℕ}

theorem copyLoop_eq (h : len < 2 ^ 16) :
    copyLoop p len offset = ((p.flatten.drop offset).take len,
      ((p.flatten.drop offset).take len).length) := by
  induction p generalizing len offset with
  | nil => simp [copyLoop]
  | cons d p ih =>
    rw [copyLoop, List.flatten_cons, List.drop_append]
    by_cases hlen : len = 0
    · rw [if_pos hlen, hlen, List.take_zero, List.length_nil]
    · rw [if_neg hlen]
      by_cases hskip : offset ≠ 0 ∧ offset ≥ d.length
      · rw [if_pos hskip, ih h, List.drop_eq_nil_of_le hskip.2, List.nil_append]
      · rw [if_neg hskip]
        -- the rest of this buffer, or as much as is wanted
        have hcut : (if d.length - offset > len then len else d.length - offset) =
            min len (d.drop offset).length := by
          rw [List.length_drop]
          split_ifs <;> omega
        have hrest : len - min len (d.drop offset).length = len - (d.drop offset).length := by omega
        have hnext : offset - d.length = 0 := by omega
        simp only [hcut, hrest, ih (show len - (d.drop offset).length < 2 ^ 16 by omega), hnext,
          List.drop_zero, List.take_append, List.take_eq_take_min.symm, List.length_append,
          List.length_take]
        rw [Nat.mod_eq_of_lt (by omega)]

/-- Bytes are copied into the buffers in turn, and nothing else changes. -/
theorem takeLoop_spec (h : data.length ≤ p.flatten.length) :
    ∃ q, takeLoop p data = some q ∧ q.flatten = data ++ p.flatten.drop data.length ∧
      q.map List.length = p.map List.length := by
  induction p generalizing data with
  | nil =>
    obtain rfl : data = [] := List.eq_nil_of_length_eq_zero (Nat.le_zero.mp h)
    exact ⟨[], rfl, rfl, rfl⟩
  | cons d p ih =>
    cases data with
    | nil => exact ⟨d :: p, rfl, rfl, rfl⟩
    | cons x data =>
      rw [takeLoop]
      generalize x :: data = data' at *
      rw [List.flatten_cons, List.length_append] at h
      obtain ⟨q, heq, hflat, hsizes⟩ := @ih (data'.drop (min data'.length d.length))
        (by rw [List.length_drop]; omega)
      refine ⟨_, by rw [heq, Option.map_some], ?_, ?_⟩
      · rw [List.flatten_cons, hflat, List.flatten_cons, List.drop_append, List.length_drop]
        rcases Nat.le_total data'.length d.length with hle | hle
        · rw [Nat.min_eq_left hle, List.take_length, List.drop_length, Nat.sub_self,
            Nat.sub_eq_zero_of_le hle, List.nil_append, List.append_assoc]
        · rw [Nat.min_eq_right hle, List.drop_length, List.append_nil,
            List.drop_eq_nil_of_le hle, List.nil_append, ← List.append_assoc,
            List.take_append_drop]
      · rw [List.map_cons, hsizes, List.map_cons, List.length_append, List.length_take,
          List.length_drop]
        congr 1
        omega

/-- **Copies.** `pbuf_take` refuses bytes that the packet has no room for, and puts others in front
of the other bytes of the packet, with the buffers as long as before; without a packet it only
answers success. What `pbuf_copy_partial` copies out afterwards, from any offset on, are those
bytes and the rest of the packet. -/
theorem pbufTake_copies (hp : p.flatten.length < 2 ^ 16) (data : List UInt8) :
    (p = [] → pbufTake p data = some (p, errOk)) ∧
    (p ≠ [] → p.flatten.length < data.length → pbufTake p data = some (p, errArg)) ∧
    (data.length ≤ p.flatten.length → ∃ q, pbufTake p data = some (q, errOk) ∧
      q.flatten = data ++ p.flatten.drop data.length ∧ q.map List.length = p.map List.length ∧
      ∀ len offset, ∃ l, pbufCopyPartial q len offset = (l, l.length) ∧
        l = ((data ++ p.flatten.drop data.length).drop offset.toNat).take len.toNat) := by
  rw [pbufTake, totLen, Nat.mod_eq_of_lt hp]
  refine ⟨fun hnull => if_pos hnull, fun hne hlong => ?_, fun hle => ?_⟩
  · rw [if_neg hne, if_pos hlong]
  · obtain ⟨q, heq, hflat, hsizes⟩ := takeLoop_spec hle
    refine ⟨q, ?_, hflat, hsizes, fun len offset => ⟨_, copyLoop_eq len.toNat_lt, ?_⟩⟩
    · split_ifs with hnull hlong
      · -- there is nothing to copy
        obtain rfl : data = [] := by
          rw [hnull] at hle
          exact List.eq_nil_of_length_eq_zero (Nat.le_zero.mp hle)
        rw [takeLoop, Option.some.injEq] at heq
        rw [heq]
      · exact absurd hlong (Nat.not_lt.mpr hle)
      · rw [heq, Option.map_some]
    · rw [hflat]

/-- Three bytes are copied over the end of the first buffer, and five are too many. -/
theorem pbufTake_copies_split :
    pbufTake [[1, 2], [3, 4]] [7, 8, 9, 10, 11] = some ([[1, 2], [3, 4]], errArg) ∧
    ∃ q, pbufTake [[1, 2], [3, 4]] [7, 8, 9] = some (q, errOk) ∧ q.flatten = [7, 8, 9, 4] ∧
      pbufCopyPartial q 2 2 = ([9, 4], 2) := by
  have hshort : (List.flatten [[1, 2], [3, 4]] : List UInt8).length < 2 ^ 16 := by decide
  obtain ⟨q, heq, hflat, -, hcopies⟩ := (pbufTake_copies hshort [7, 8, 9]).2.2 (by decide)
  obtain ⟨l, hl, rfl⟩ := hcopies 2 2
  exact ⟨(pbufTake_copies hshort _).2.1 (List.cons_ne_nil _ _) (by decide), q, heq, hflat, hl⟩

end Payloads

end FanGateway.Lwip
