import FanGateway.Arm.Demo
import FanGateway.Lib.Log

/-!
# The length of a received message

The reader publishes a message together with its length, and the processor uses that
length as an index into the message. The length is the sum of what the two reads return.
A read that fails returns -1, which only the first read is checked for, and the sum is
stored before it is known to be long enough.

The reader once more, with a log of the reads it makes, and the processor, with a log of
the indexes it uses, say what the length ought to be and when it is that.
-/

namespace FanGateway.Arm

open Lib

/-! ## The reads of the reader -/

/-- By the count in the message, a first read has not taken all of it. -/
def WantsMore (g : Globals) (first : List UInt8) : Prop :=
  first.length < ((g.msg.blit 0 first).peek 2).toNat + 5

instance (g : Globals) (first : List UInt8) : Decidable (WantsMore g first) :=
  inferInstanceAs (Decidable (_ < _))

/-- A call whose first read succeeds. -/
theorem readPort_some (first : List UInt8) (result : Option (List UInt8)) (g : Globals) :
    readPort 1 (some first) result g =
      let g := { g with msg := g.msg.blit 0 first }
      if first.length = 0 then g
      else if first.length = (g.msg.peek 2).toNat + 5 then publish first.length g
      else if first.length < (g.msg.peek 2).toNat + 5 then
        let (tmp, msg) := readInto g.msg first.length result
        publish (first.length + tmp) { g with msg }
      else g := by
  rw [readPort, if_neg (by decide)]
  change (if (first.length : ℤ) > 0 then
      if (first.length : ℤ) = ((g.msg.blit 0 first).peek 2).toNat + 5 then
        publish first.length { g with msg := g.msg.blit 0 first }
      else if (first.length : ℤ) < ((g.msg.blit 0 first).peek 2).toNat + 5 then
        publish _ _ else _ else _) = _
  simp only
  -- the tests on integers are those on lengths
  split_ifs <;> first | rfl | omega

/-- A call of `read`: where it stores, and the bytes it stores, or `none` for -1. -/
structure Read where
  start : ℕ
  result : Option (List UInt8)

namespace Logged

def readInto {n : ℕ} (msg : Buffer UInt8 n) (start : ℕ) (result : Option (List UInt8)) :
    Log Read (ℤ × Buffer UInt8 n) := do
  tell [⟨start, result⟩]
  pure (Arm.readInto msg start result)

def readPort (retval : ℤ) (first second : Option (List UInt8)) (g : Globals) :
    Log Read Globals :=
  if retval = 0 ∨ retval = -1 then pure g
  else do
    let (nread, msg) ← readInto g.msg 0 first
    let g := { g with msg }
    if nread > 0 then
      if nread = (g.msg.peek 2).toNat + 5 then pure (publish nread g)
      else if nread < (g.msg.peek 2).toNat + 5 then do
        let (tmp, msg) ← readInto g.msg nread.toNat second
        pure (publish (nread + tmp) { g with msg })
      else pure g
    else pure g

/-- Without the log a call is a call. -/
theorem value_readPort (retval : ℤ) (first second : Option (List UInt8)) (g : Globals) :
    (readPort retval first second g).value = Arm.readPort retval first second g := by
  simp only [readPort, Arm.readPort, Log.value_ite, Log.value_bind, Log.value_pure]
  rfl

end Logged

/-! ## The indexes of the processor -/

namespace Indexed

def msgAt {n : ℕ} (msg : Buffer UInt8 n) (i : ℤ) : Log ℤ UInt8 := do
  tell [i]
  pure (msg.peek i.toNat)

/-- The bytes that `crc16` goes through. -/
def msgSlice {n : ℕ} (msg : Buffer UInt8 n) (len : ℕ) : Log ℤ (List UInt8) :=
  Log.forRange 0 len (fun t xs => do
    let x ← msgAt msg t
    pure (xs ++ [x])) []

def modbusRtuCheckIntegrity {n : ℕ} (remsg : Buffer UInt8 n) (msgLength : ℤ) : Log ℤ Bool := do
  let _slave ← msgAt remsg 0
  if msgLength < 11 then pure false
  else do
    let message ← msgSlice remsg (msgLength - 2).toNat
    let high ← msgAt remsg (msgLength - 2)
    let low ← msgAt remsg (msgLength - 1)
    pure (crc16 message == ((high.toUInt16 <<< 8) ||| low.toUInt16))

def rtuDataAnlys {n m : ℕ} (dst : Traced UInt8 n) (src : Buffer UInt8 m) (start len : ℕ) :
    Log ℤ (Traced UInt8 n) :=
  Log.forRange 0 len (fun i dst => do
    let x ← msgAt src (i + 3 : ℕ)
    pure (dst.store (i + start) x)) dst

def copyTo (start len : ℕ) (g : Globals) : Log ℤ Globals := do
  let dataBuf ← rtuDataAnlys g.dataBuf g.msg start len
  pure { g with dataBuf }

def checkAndCopy (g : Globals) : Log ℤ Globals := do
  let integrity ← modbusRtuCheckIntegrity g.msg g.msgLength
  if integrity then
    if g.msg.peek 0 = 1 then copyTo 6 16 g
    else if g.msg.peek 0 = 2 then copyTo 22 16 g
    else if g.msg.peek 0 = 3 then copyTo 38 6 g
    else pure g
  else pure g

theorem value_msgSlice {n : ℕ} (msg : Buffer UInt8 n) (len : ℕ) :
    (msgSlice msg len).value = msg.slice 0 len := Log.value_slice fun _ => rfl

theorem value_modbusRtuCheckIntegrity {n : ℕ} (remsg : Buffer UInt8 n) (msgLength : ℤ) :
    (modbusRtuCheckIntegrity remsg msgLength).value =
      Arm.modbusRtuCheckIntegrity remsg msgLength := by
  rw [modbusRtuCheckIntegrity, Arm.modbusRtuCheckIntegrity, Log.value_bind, Log.value_ite,
    Log.value_bind, value_msgSlice]
  rfl

theorem value_rtuDataAnlys {n m : ℕ} (dst : Traced UInt8 n) (src : Buffer UInt8 m)
    (start len : ℕ) :
    (rtuDataAnlys dst src start len).value = Arm.rtuDataAnlys dst src start len :=
  Log.value_forRange fun _ _ => rfl

/-- Without the indexes the check and the copying are as before. -/
theorem value_checkAndCopy (g : Globals) : (checkAndCopy g).value = Arm.checkAndCopy g := by
  simp only [checkAndCopy, Arm.checkAndCopy, copyTo, Log.value_bind, Log.value_ite,
    Log.value_pure, value_modbusRtuCheckIntegrity, value_rtuDataAnlys]

end Indexed

/-- An index into the 40 bytes of `msg`. -/
def InMsg (i : ℤ) : Prop := 0 ≤ i ∧ i < 40

namespace Indexed

@[simp] theorem all_msgAt {n : ℕ} (msg : Buffer UInt8 n) (i : ℤ) :
    (msgAt msg i).All InMsg ↔ InMsg i := by
  rw [msgAt, Log.all_bind, Log.all_tell]
  exact and_iff_left (Log.all_pure _)

theorem all_msgSlice {n : ℕ} (msg : Buffer UInt8 n) {len : ℕ} (h : len ≤ 40) :
    (msgSlice msg len).All InMsg := by
  refine Log.all_forRange (Nat.zero_le len) fun t xs _ ht => ?_
  rw [Log.all_bind, all_msgAt]
  exact ⟨⟨by omega, by omega⟩, Log.all_pure _⟩

theorem all_modbusRtuCheckIntegrity {n : ℕ} (remsg : Buffer UInt8 n) {msgLength : ℤ}
    (h : msgLength ≤ 40) : (modbusRtuCheckIntegrity remsg msgLength).All InMsg := by
  rw [modbusRtuCheckIntegrity, Log.all_bind, all_msgAt]
  refine ⟨⟨le_rfl, by decide⟩, ?_⟩
  split_ifs with hshort
  · exact Log.all_pure _
  · simp only [Log.all_bind, all_msgAt]
    exact ⟨all_msgSlice remsg (by omega), ⟨by omega, by omega⟩, ⟨by omega, by omega⟩,
      Log.all_pure _⟩

theorem all_copyTo {start len : ℕ} (g : Globals) (h : len ≤ 37) :
    (copyTo start len g).All InMsg := by
  rw [copyTo, Log.all_bind]
  refine ⟨Log.all_forRange (Nat.zero_le len) fun i dst _ hi => ?_, Log.all_pure _⟩
  rw [Log.all_bind, all_msgAt]
  exact ⟨⟨by omega, by omega⟩, Log.all_pure _⟩

/-- A length up to 40 keeps all indexes in the message. -/
theorem all_checkAndCopy {g : Globals} (h : g.msgLength ≤ 40) :
    (checkAndCopy g).All InMsg := by
  rw [checkAndCopy, Log.all_bind]
  refine ⟨all_modbusRtuCheckIntegrity g.msg h, ?_⟩
  split_ifs
  · exact all_copyTo g (by decide)
  · exact all_copyTo g (by decide)
  · exact all_copyTo g (by decide)
  · exact Log.all_pure _
  · exact Log.all_pure _

end Indexed

/-! ## One call -/

/-- What `select` and the two reads return in one call. No read returns more bytes than it
asks for. -/
structure Call where
  retval : ℤ
  first : Option (List UInt8)
  second : Option (List UInt8)
  first_le : ∀ bytes ∈ first, bytes.length ≤ 21
  second_le : ∀ bytes ∈ second, bytes.length ≤ 5

namespace Call

section Definitions

variable (c : Call) (g : Globals)

def after : Globals := readPort c.retval c.first c.second g

/-- The reads that are made. -/
def reads : List Read := (Logged.readPort c.retval c.first c.second g).entries

/-- The bytes that the reads have stored. -/
def taken : List UInt8 := (c.reads g).flatMap fun r => r.result.getD []

/-- The call sets the flag, whatever it was before. -/
def Publishes : Prop := (c.after { g with modbusDataChange := false }).modbusDataChange = true

/-- A message is published with the number of bytes stored, these stand at its front, and the
processor stays in it; if a read fails or there are too few bytes, nothing is published. -/
structure LengthSound : Prop where
  length : c.Publishes g → (c.after g).msgLength = (c.taken g).length
  contiguous : c.Publishes g → (c.after g).msg.slice 0 (c.taken g).length = c.taken g
  indexes : c.Publishes g → (Indexed.checkAndCopy (c.after g)).All InMsg
  kept : (∃ r ∈ c.reads g, r.result = none) ∨ (c.taken g).length < 11 →
    (c.after g).msgLength = g.msgLength ∧
      (c.after g).modbusDataChange = g.modbusDataChange

/-- A message of the length it counts is long enough, unless its length is the one published
before. A second read does not fail, and leaves enough bytes together with the first, unless
the sum of what the two return is the length published before, and too short. -/
def Regular : Prop :=
  c.retval = 0 ∨ c.retval = -1 ∨ ∀ bytes ∈ c.first, bytes ≠ [] →
    let count := ((g.msg.blit 0 bytes).peek 2).toNat + 5
    (bytes.length = count → bytes.length < 11 → g.msgLength = bytes.length) ∧
      (bytes.length < count →
        match c.second with
        | none => bytes.length ≤ 11 ∧ g.msgLength = bytes.length - 1
        | some more =>
          bytes.length + more.length < 11 → g.msgLength = ↑(bytes.length + more.length))

end Definitions

variable {c : Call} {g : Globals} {bytes : List UInt8}

/-- A call that does not get to the test of the length. -/
theorem lengthSound_of_quiet {msg : Buffer UInt8 40}
    (hafter : ∀ flag, c.after { g with modbusDataChange := flag } =
      { g with msg := msg, modbusDataChange := flag }) : c.LengthSound g := by
  have hcall : c.after g = { g with msg := msg } := hafter g.modbusDataChange
  have hnot : ¬ c.Publishes g := by
    rw [Publishes, hafter]
    exact Bool.false_ne_true
  refine ⟨fun h => absurd h hnot, fun h => absurd h hnot, fun h => absurd h hnot, fun _ => ?_⟩
  rw [hcall]
  exact ⟨rfl, rfl⟩

/-- A call that gets as far as the test of the length. -/
theorem lengthSound_of_publish {length : ℤ} {msg : Buffer UInt8 40}
    (hafter : ∀ flag, c.after { g with modbusDataChange := flag } =
      publish length { g with msg := msg, modbusDataChange := flag })
    (hle : length ≤ 40) (hslice : msg.slice 0 (c.taken g).length = c.taken g) :
    c.LengthSound g ↔
      (11 ≤ length → length = (c.taken g).length) ∧
        ((∃ r ∈ c.reads g, r.result = none) ∨ (c.taken g).length < 11 →
          length = g.msgLength ∧ (11 ≤ length → g.modbusDataChange = true)) := by
  have hcall : c.after g = publish length { g with msg := msg } := hafter g.modbusDataChange
  have hmsg : (c.after g).msg = msg := by
    rw [hcall, publish]
    split_ifs <;> rfl
  have hlength : (c.after g).msgLength = length := by
    rw [hcall, publish]
    split_ifs <;> rfl
  have hpublishes : c.Publishes g ↔ 11 ≤ length := by
    rw [Publishes, hafter, publish]
    split_ifs with hshort
    · exact iff_of_false not_false (not_le.mpr hshort)
    · exact iff_of_true rfl (not_lt.mp hshort)
  have hflag : (c.after g).modbusDataChange = g.modbusDataChange ↔
      (11 ≤ length → g.modbusDataChange = true) := by
    rw [hcall, publish]
    split_ifs with hshort
    · exact iff_of_true rfl fun h => absurd hshort (not_lt.mpr h)
    · exact ⟨fun h _ => h.symm, fun h => (h (not_lt.mp hshort)).symm⟩
  constructor
  · rintro ⟨hsound, -, -, hkept⟩
    rw [hpublishes, hlength] at hsound
    rw [hlength, hflag] at hkept
    exact ⟨hsound, hkept⟩
  · rintro ⟨hsound, hkept⟩
    refine ⟨?_, fun _ => ?_, fun _ => ?_, ?_⟩
    · rw [hpublishes, hlength]
      exact hsound
    · rw [hmsg]
      exact hslice
    · exact Indexed.all_checkAndCopy (hlength.trans_le hle)
    · rw [hlength, hflag]
      exact hkept

theorem after_of_idle (h : c.retval = 0 ∨ c.retval = -1) : c.after g = g := by
  rw [after, readPort, if_pos h]

/-- A call that reads is one for which `select` returns 1. -/
theorem after_of_ready (h : ¬ (c.retval = 0 ∨ c.retval = -1)) :
    c.after g = readPort 1 c.first c.second g := by
  rw [after, readPort, readPort, if_neg h, if_neg (by decide)]

/-- The reads of a call whose first read succeeds. -/
theorem reads_of_some (h : ¬ (c.retval = 0 ∨ c.retval = -1)) (hfirst : c.first = some bytes) :
    c.reads g = ⟨0, some bytes⟩ ::
      if 0 < bytes.length ∧ WantsMore g bytes then [⟨bytes.length, c.second⟩] else [] := by
  rw [reads, Logged.readPort, if_neg h, hfirst, Log.entries_bind]
  change (⟨0, some bytes⟩ : Read) :: (if (bytes.length : ℤ) > 0 then
      if (bytes.length : ℤ) = ((g.msg.blit 0 bytes).peek 2).toNat + 5 then pure _
      else if (bytes.length : ℤ) < ((g.msg.blit 0 bytes).peek 2).toNat + 5 then _ else pure _
    else pure _ : Log Read Globals).entries = _
  congr 1
  change _ = if 0 < bytes.length ∧ bytes.length < ((g.msg.blit 0 bytes).peek 2).toNat + 5 then
    _ else _
  -- the tests on integers are those on lengths
  split_ifs <;> first | rfl | omega

section Reading

variable {more : List UInt8} (hready : ¬ (c.retval = 0 ∨ c.retval = -1))
  (hfirst : c.first = some bytes) (hpos : 0 < bytes.length)

include hready hfirst hpos

/-- What a call does whose first read takes something. -/
theorem after_of_some (flag : Bool) :
    c.after { g with modbusDataChange := flag } =
      if bytes.length = ((g.msg.blit 0 bytes).peek 2).toNat + 5 then
        publish bytes.length { g with msg := g.msg.blit 0 bytes, modbusDataChange := flag }
      else if bytes.length < ((g.msg.blit 0 bytes).peek 2).toNat + 5 then
        let (tmp, msg) := readInto (g.msg.blit 0 bytes) bytes.length c.second
        publish (bytes.length + tmp) { g with msg := msg, modbusDataChange := flag }
      else { g with msg := g.msg.blit 0 bytes, modbusDataChange := flag } := by
  rw [after_of_ready hready, hfirst, readPort_some]
  exact if_neg hpos.ne'

/-- The first read takes a message of the length it counts. -/
theorem lengthSound_of_whole (h : bytes.length = ((g.msg.blit 0 bytes).peek 2).toNat + 5) :
    c.LengthSound g ↔ (bytes.length < 11 → g.msgLength = bytes.length) := by
  have hreads := reads_of_some (g := g) hready hfirst
  rw [if_neg fun hmore => absurd hmore.2 h.not_lt] at hreads
  have hafter := after_of_some (g := g) hready hfirst hpos
  simp only [if_pos h] at hafter
  have hfits := c.first_le bytes hfirst
  have htaken : c.taken g = bytes := by simp [taken, hreads]
  have hfails : ¬ ∃ r ∈ c.reads g, r.result = none := by simp [hreads]
  have hslice : (g.msg.blit 0 bytes).slice 0 bytes.length = bytes := Buffer.slice_blit (by omega)
  rw [lengthSound_of_publish hafter (by omega) (by rw [htaken]; exact hslice), htaken,
    or_iff_right hfails]
  constructor
  · rintro ⟨-, hkept⟩ hshort
    exact (hkept hshort).1.symm
  · intro hkept
    exact ⟨fun _ => rfl, fun hshort => ⟨(hkept hshort).symm, fun h => by omega⟩⟩

/-- The second read fails. -/
theorem lengthSound_of_failed (h : WantsMore g bytes) (hsecond : c.second = none) :
    c.LengthSound g ↔ bytes.length ≤ 11 ∧ g.msgLength = bytes.length - 1 := by
  have hreads := reads_of_some (g := g) hready hfirst
  rw [if_pos ⟨hpos, h⟩, hsecond] at hreads
  have hafter := after_of_some (g := g) hready hfirst hpos
  rw [WantsMore] at h
  simp only [if_neg h.ne, if_pos h, hsecond, readInto] at hafter
  have hfits := c.first_le bytes hfirst
  have htaken : c.taken g = bytes := by simp [taken, hreads]
  have hfails : ∃ r ∈ c.reads g, r.result = none := by simp [hreads]
  have hslice : (g.msg.blit 0 bytes).slice 0 bytes.length = bytes := Buffer.slice_blit (by omega)
  rw [lengthSound_of_publish hafter (by omega) (by rw [htaken]; exact hslice), htaken]
  constructor
  · rintro ⟨hsound, hkept⟩
    have hbefore := (hkept (.inl hfails)).1
    exact ⟨by omega, by omega⟩
  · rintro ⟨hshort, hbefore⟩
    exact ⟨fun h => by omega, fun _ => ⟨by omega, fun h => by omega⟩⟩

/-- The second read succeeds. -/
theorem lengthSound_of_second (h : WantsMore g bytes) (hsecond : c.second = some more) :
    c.LengthSound g ↔
      (bytes.length + more.length < 11 → g.msgLength = ↑(bytes.length + more.length)) := by
  have hreads := reads_of_some (g := g) hready hfirst
  rw [if_pos ⟨hpos, h⟩, hsecond] at hreads
  have hafter := after_of_some (g := g) hready hfirst hpos
  rw [WantsMore] at h
  simp only [if_neg h.ne, if_pos h, hsecond, readInto] at hafter
  have hfits := c.first_le bytes hfirst
  have hfits' := c.second_le more hsecond
  have htaken : c.taken g = bytes ++ more := by simp [taken, hreads]
  have hfails : ¬ ∃ r ∈ c.reads g, r.result = none := by simp [hreads]
  -- the second piece is stored behind the first
  have hslice : ((g.msg.blit 0 bytes).blit bytes.length more).slice 0 (bytes ++ more).length =
      bytes ++ more := by
    have happend : g.msg.blit 0 (bytes ++ more) =
        (g.msg.blit 0 bytes).blit (0 + bytes.length) more := Buffer.blit_append
    rw [Nat.zero_add] at happend
    rw [← happend]
    exact Buffer.slice_blit (by rw [List.length_append]; omega)
  rw [lengthSound_of_publish hafter (by omega) (by rw [htaken]; exact hslice), htaken,
    or_iff_right hfails, List.length_append, Nat.cast_add]
  constructor
  · rintro ⟨-, hkept⟩ hshort
    exact (hkept hshort).1.symm
  · intro hkept
    exact ⟨fun _ => rfl, fun hshort => ⟨(hkept hshort).symm, fun h => by omega⟩⟩

/-- The first read takes more than the message counts. -/
theorem lengthSound_of_many (h : ((g.msg.blit 0 bytes).peek 2).toNat + 5 < bytes.length) :
    c.LengthSound g := by
  have hafter := after_of_some (g := g) hready hfirst hpos
  simp only [if_neg h.ne', if_neg h.not_gt] at hafter
  exact lengthSound_of_quiet hafter

end Reading

/-- **The length of a message.** A call is sound exactly if it is regular. -/
theorem lengthSound_iff (c : Call) (g : Globals) : c.LengthSound g ↔ c.Regular g := by
  by_cases hready : c.retval = 0 ∨ c.retval = -1
  · exact iff_of_true (lengthSound_of_quiet fun flag => after_of_idle hready)
      (hready.imp_right .inl)
  rw [Regular, ← or_assoc, or_iff_right hready]
  have hafter (flag : Bool) : c.after { g with modbusDataChange := flag } =
      readPort 1 c.first c.second { g with modbusDataChange := flag } := after_of_ready hready
  cases hfirst : c.first with
  | none =>
    rw [hfirst] at hafter
    exact iff_of_true (lengthSound_of_quiet hafter) fun bytes hbytes => absurd hbytes (by simp)
  | some bytes =>
    simp only [Option.mem_some_iff, forall_eq']
    by_cases hempty : bytes = []
    · subst hempty
      rw [hfirst] at hafter
      exact iff_of_true (lengthSound_of_quiet hafter) fun h => absurd rfl h
    have hpos := List.length_pos_iff.mpr hempty
    rw [imp_iff_right hempty]
    rcases lt_trichotomy bytes.length (((g.msg.blit 0 bytes).peek 2).toNat + 5) with
      hless | hwhole | hmany
    · rw [imp_iff_right hless]
      cases hsecond : c.second with
      | none =>
        rw [lengthSound_of_failed hready hfirst hpos hless hsecond]
        exact (and_iff_right fun hwhole => absurd hwhole hless.ne).symm
      | some more =>
        rw [lengthSound_of_second hready hfirst hpos hless hsecond]
        exact (and_iff_right fun hwhole => absurd hwhole hless.ne).symm
    · rw [lengthSound_of_whole hready hfirst hpos hwhole, imp_iff_right hwhole]
      exact (and_iff_left fun hless => absurd hless hwhole.not_lt).symm
    · exact iff_of_true (lengthSound_of_many hready hfirst hpos hmany)
        ⟨fun h => absurd h hmany.ne', fun h => absurd h hmany.not_gt⟩

end Call

/-! ## A failed second read -/

/-- The first 15 of 21 bytes, after which a second read finds nothing yet. -/
def fifteenThenNone : Call where
  retval := 1
  first := some [1, 3, 16, 0, 0, 0, 0, 0, 0, 0, 0, 0, 0, 0, 0]
  second := none
  first_le := by simp
  second_le := by simp

/-- They are published as 14. -/
theorem fifteenThenNone_not_lengthSound : ¬ fifteenThenNone.LengthSound boot := by
  rw [Call.lengthSound_of_failed (by decide) rfl (by decide) (by decide) rfl]
  decide

end FanGateway.Arm
