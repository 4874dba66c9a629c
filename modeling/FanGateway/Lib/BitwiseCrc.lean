import FanGateway.Lib.Crc
import Mathlib.Logic.Function.Iterate

/-!
# The sixteen-bit register behind a table-driven checksum

The reflected form of a sixteen-bit checksum keeps one register. A message byte
is mixed into its low half, and then eight bits are shifted out on the right,
the polynomial being mixed in after each bit that was 1.

One bit is linear in exclusive or, and for a polynomial whose top bit is set it
loses nothing. A message byte therefore acts on the register as a bijection, two
bytes in a row reach every register exactly once, and a pair of byte tables that
hold the eight-bit steps computes the same register in two halves. What the
checksum detects follows from this alone.
-/

namespace Lib.Crc

/-- One bit: shift right, and mix the polynomial in if the bit shifted out was 1. -/
def bitStep (poly reg : UInt16) : UInt16 :=
  if reg &&& 1 = 1 then (reg >>> 1) ^^^ poly else reg >>> 1

/-- One byte: mix it into the low half, then shift out eight bits. -/
def byteStep (poly reg : UInt16) (byte : UInt8) : UInt16 :=
  (bitStep poly)^[8] (reg ^^^ byte.toUInt16)

/-- The register after a message, from all ones. -/
def bitwiseCrc (poly : UInt16) (msg : List UInt8) : UInt16 := msg.foldl (byteStep poly) 0xFFFF

/-- Exchange the two bytes of a word. -/
def swapBytes (w : UInt16) : UInt16 := (w <<< 8) ||| (w >>> 8)

/-! ## Words and their bytes -/

theorem word_inj {a b c d : UInt8} (h : word a b = word c d) : a = c ∧ b = d := by
  have hbytes : [a, b] = [c, d] := (word_eq_iff.mp rfl).trans (word_eq_iff.mp h.symm).symm
  simpa using hbytes

/-- Every word is one of two bytes. -/
theorem exists_word (w : UInt16) : ∃ hi lo, word hi lo = w := ⟨_, _, word_bytes w⟩

theorem toBitVec_word (hi lo : UInt8) : (word hi lo).toBitVec = hi.toBitVec ++ lo.toBitVec := by
  apply BitVec.eq_of_toNat_eq
  have hlo : lo.toBitVec.toNat < 2 ^ 8 := lo.toBitVec.isLt
  rw [BitVec.toNat_append, ← Nat.shiftLeft_add_eq_or_of_lt hlo, Nat.shiftLeft_eq]
  exact toNat_word hi lo

/-- Words are mixed byte by byte. -/
theorem word_xor (a b c d : UInt8) : word a b ^^^ word c d = word (a ^^^ c) (b ^^^ d) := by
  apply UInt16.toBitVec_inj.mp
  rw [UInt16.toBitVec_xor, toBitVec_word, toBitVec_word, toBitVec_word, UInt8.toBitVec_xor,
    UInt8.toBitVec_xor]
  exact BitVec.xor_append

/-- A byte as a word. -/
theorem toUInt16_eq_word (byte : UInt8) : byte.toUInt16 = word 0 byte := by
  apply UInt16.toNat_inj.mp
  simp [toNat_word]

theorem swapBytes_word (hi lo : UInt8) : swapBytes (word hi lo) = word lo hi := by
  apply UInt16.toNat_inj.mp
  have hhi := hi.toNat_lt
  have hlo := lo.toNat_lt
  have hshift : (word hi lo >>> 8).toNat = hi.toNat := by
    rw [UInt16.toNat_shiftRight, toNat_word, show (8 : UInt16).toNat % 16 = 8 from rfl,
      Nat.shiftRight_eq_div_pow]
    omega
  have hleft : (word hi lo <<< 8).toNat = lo.toNat <<< 8 := by
    rw [UInt16.toNat_shiftLeft, toNat_word, show (8 : UInt16).toNat % 16 = 8 from rfl,
      Nat.shiftLeft_eq, Nat.shiftLeft_eq]
    omega
  rw [swapBytes, UInt16.toNat_or, hshift, hleft, ← Nat.shiftLeft_add_eq_or_of_lt (by omega),
    Nat.shiftLeft_eq, toNat_word]

/-! ## One bit -/

section Bit

variable {poly : UInt16}

private theorem toNat_shiftRight_one (reg : UInt16) : (reg >>> 1).toNat = reg.toNat / 2 := by
  rw [UInt16.toNat_shiftRight, show (1 : UInt16).toNat % 16 = 1 from rfl,
    Nat.shiftRight_eq_div_pow]

/-- The bit shifted out is the parity of the register. -/
theorem and_one_eq_one_iff (reg : UInt16) : reg &&& 1 = 1 ↔ reg.toNat % 2 = 1 := by
  rw [← UInt16.toNat_inj, UInt16.toNat_and, show (1 : UInt16).toNat = 1 from rfl,
    Nat.and_one_is_mod]

theorem bitStep_of_odd {reg : UInt16} (h : reg.toNat % 2 = 1) :
    bitStep poly reg = (reg >>> 1) ^^^ poly := if_pos ((and_one_eq_one_iff reg).mpr h)

theorem bitStep_of_even {reg : UInt16} (h : reg.toNat % 2 = 0) :
    bitStep poly reg = reg >>> 1 :=
  if_neg fun hodd => absurd ((and_one_eq_one_iff reg).mp hodd) (by omega)

/-- One bit is linear. -/
theorem bitStep_xor (a b : UInt16) :
    bitStep poly (a ^^^ b) = bitStep poly a ^^^ bitStep poly b := by
  have hparity : (a ^^^ b).toNat % 2 = (a.toNat % 2) ^^^ (b.toNat % 2) := by
    rw [UInt16.toNat_xor]
    exact Nat.xor_mod_two_pow (n := 1)
  rcases Nat.mod_two_eq_zero_or_one a.toNat with ha | ha <;>
    rcases Nat.mod_two_eq_zero_or_one b.toNat with hb | hb <;> rw [ha, hb] at hparity
  · rw [bitStep_of_even hparity, bitStep_of_even ha, bitStep_of_even hb, UInt16.shiftRight_xor]
  · rw [bitStep_of_odd hparity, bitStep_of_even ha, bitStep_of_odd hb, UInt16.shiftRight_xor,
      UInt16.xor_assoc]
  · rw [bitStep_of_odd hparity, bitStep_of_odd ha, bitStep_of_even hb, UInt16.shiftRight_xor]
    ac_rfl
  · -- the polynomial is mixed in on both sides and cancels
    rw [bitStep_of_even hparity, bitStep_of_odd ha, bitStep_of_odd hb, UInt16.shiftRight_xor,
      UInt16.xor_assoc, UInt16.xor_comm (b >>> 1), ← UInt16.xor_assoc poly, UInt16.xor_self,
      UInt16.zero_xor]

/-- Any number of bits is linear. -/
theorem bitSteps_xor (n : ℕ) (a b : UInt16) :
    (bitStep poly)^[n] (a ^^^ b) = (bitStep poly)^[n] a ^^^ (bitStep poly)^[n] b := by
  -- induction on the bits, the first one taken off
  induction n generalizing a b with
  | zero => rfl
  | succ n ih => simp only [Function.iterate_succ_apply, bitStep_xor, ih]

/-- If the top bit of the polynomial is set, only the empty register becomes empty. -/
theorem eq_zero_of_bitStep {reg : UInt16} (hpoly : 0x8000 ≤ poly.toNat)
    (h : bitStep poly reg = 0) : reg = 0 := by
  have hreg := reg.toNat_lt
  rcases Nat.mod_two_eq_zero_or_one reg.toNat with heven | hodd
  · rw [bitStep_of_even heven, ← UInt16.toNat_inj, toNat_shiftRight_one] at h
    apply UInt16.toNat_inj.mp
    simp only [UInt16.toNat_zero] at h ⊢
    omega
  · -- a shifted register has no top bit to cancel that of the polynomial
    rw [bitStep_of_odd hodd, UInt16.xor_eq_zero_iff, ← UInt16.toNat_inj,
      toNat_shiftRight_one] at h
    omega

/-- Two registers that become equal were equal. -/
theorem bitSteps_injective (hpoly : 0x8000 ≤ poly.toNat) (n : ℕ) :
    Function.Injective (bitStep poly)^[n] := by
  have hone : Function.Injective (bitStep poly) := by
    intro a b h
    rw [← UInt16.xor_eq_zero_iff] at h ⊢
    rw [← bitStep_xor] at h
    exact eq_zero_of_bitStep hpoly h
  exact hone.iterate n

/-- A register with an empty low half is only shifted. -/
theorem bitSteps_high (hi : UInt8) : (bitStep poly)^[8] (word hi 0) = word 0 hi := by
  have hhi := hi.toNat_lt
  -- as long as zeros leave the register it is divided by two
  have hdivides (n : ℕ) : ∀ reg : UInt16, reg.toNat % 2 ^ n = 0 →
      ((bitStep poly)^[n] reg).toNat = reg.toNat / 2 ^ n := by
    induction n with
    | zero => intro reg _; simp
    | succ n ih =>
      intro reg hreg
      rw [Nat.pow_succ', Nat.mod_mul] at hreg
      have heven : reg.toNat % 2 = 0 := by omega
      have hrest : reg.toNat / 2 % 2 ^ n = 0 := by
        rw [heven] at hreg
        omega
      rw [Function.iterate_succ_apply, bitStep_of_even heven,
        ih _ (by rw [toNat_shiftRight_one, hrest]), toNat_shiftRight_one, Nat.div_div_eq_div_mul,
        Nat.pow_succ']
  apply UInt16.toNat_inj.mp
  rw [hdivides 8 _ (by rw [toNat_word]; simp), toNat_word, toNat_word]
  simp

end Bit

/-! ## Bytes -/

section Bytes

variable {poly : UInt16}

/-- Two bytes in a row act as one word. -/
theorem byteStep_byteStep (reg : UInt16) (x y : UInt8) :
    byteStep poly (byteStep poly reg x) y = (bitStep poly)^[16] (reg ^^^ word y x) := by
  have hshifted : (bitStep poly)^[8] (word y 0) = word 0 y := bitSteps_high y
  -- the second byte is one that the bits of the first would only have shifted
  have hsecond : byteStep poly reg x ^^^ y.toUInt16 =
      (bitStep poly)^[8] (reg ^^^ word y x) := by
    rw [byteStep, toUInt16_eq_word, toUInt16_eq_word, ← hshifted, ← bitSteps_xor,
      UInt16.xor_assoc, word_xor, UInt8.zero_xor, UInt8.xor_zero]
  rw [byteStep, hsecond, ← Function.iterate_add_apply]

/-- The register before a message is determined by the one after it. -/
theorem foldl_byteStep_injective (hpoly : 0x8000 ≤ poly.toNat) (msg : List UInt8) :
    Function.Injective fun reg => msg.foldl (byteStep poly) reg := by
  -- induction on the message; each byte is injective in the register
  induction msg with
  | nil => exact fun a b h => h
  | cons x msg ih =>
    intro a b h
    have hbyte : byteStep poly a x = byteStep poly b x := ih h
    exact (UInt16.xor_left_inj _).mp (bitSteps_injective hpoly 8 hbyte)

/-- Messages that differ within two bytes in a row leave different registers. -/
theorem bitwiseCrc_burst (hpoly : 0x8000 ≤ poly.toNat) {before after : List UInt8}
    {x y x' y' : UInt8}
    (h : bitwiseCrc poly (before ++ [x, y] ++ after) =
      bitwiseCrc poly (before ++ [x', y'] ++ after)) : x = x' ∧ y = y' := by
  simp only [bitwiseCrc, List.foldl_append] at h
  have hpair := foldl_byteStep_injective hpoly after h
  simp only [List.foldl_cons, List.foldl_nil, byteStep_byteStep] at hpair
  have hword := (UInt16.xor_right_inj _).mp (bitSteps_injective hpoly 16 hpair)
  exact (word_inj hword).symm

/-- The same by positions. -/
theorem eq_of_bitwiseCrc_eq (hpoly : 0x8000 ≤ poly.toNat) {msg msg' : List UInt8} {i : ℕ}
    (hlength : msg.length = msg'.length) (hi : i + 1 < msg.length)
    (hsame : ∀ j, j ≠ i → j ≠ i + 1 → msg[j]? = msg'[j]?)
    (h : bitwiseCrc poly msg = bitwiseCrc poly msg') : msg = msg' := by
  have hsplit (msg : List UInt8) (hi : i + 1 < msg.length) :
      msg.take i ++ [msg[i], msg[i + 1]] ++ msg.drop (i + 2) = msg := by
    rw [List.append_assoc, List.cons_append, List.cons_append, List.nil_append,
      List.getElem_cons_drop, List.getElem_cons_drop, List.take_append_drop]
  have hbefore : msg.take i = msg'.take i := by
    apply List.ext_getElem?
    intro j
    rw [List.getElem?_take, List.getElem?_take]
    split_ifs with hj
    · exact hsame j (by omega) (by omega)
    · rfl
  have hafter : msg.drop (i + 2) = msg'.drop (i + 2) := by
    apply List.ext_getElem?
    intro j
    rw [List.getElem?_drop, List.getElem?_drop]
    exact hsame _ (by omega) (by omega)
  rw [← hsplit msg hi, ← hsplit msg' (by omega), hbefore, hafter] at h ⊢
  obtain ⟨hx, hy⟩ := bitwiseCrc_burst hpoly h
  rw [hx, hy]

end Bytes

/-! ## Tables -/

/-- The two tables hold the halves of the register after eight bits. -/
def Tabulates (poly : UInt16) (high low : ByteTable) : Prop :=
  ∀ i : UInt8, word (low.entry i) (high.entry i) = (bitStep poly)^[8] i.toUInt16

section Tables

variable {poly : UInt16} {high low : ByteTable}

/-- Two tables are checked entry by entry. -/
theorem tabulates_of_entries
    (h : ∀ i : Fin 256, word (low.get i) (high.get i) = (bitStep poly)^[8] (UInt16.ofNat i)) :
    Tabulates poly high low := by
  intro i
  rw [← UInt16.ofNat_uInt8ToNat]
  exact h ⟨i.toNat, i.toNat_lt⟩

/-- One round of the tables is one byte of the register, low half first. -/
theorem word_round (htab : Tabulates poly high low) (crc : UInt8 × UInt8) (byte : UInt8) :
    word (round high low crc byte).2 (round high low crc byte).1 =
      byteStep poly (word crc.2 crc.1) byte := by
  have hsplit : word crc.2 crc.1 ^^^ byte.toUInt16 =
      word crc.2 0 ^^^ (crc.1 ^^^ byte).toUInt16 := by
    rw [toUInt16_eq_word, toUInt16_eq_word, word_xor, word_xor, UInt8.zero_xor]
  rw [byteStep, hsplit, bitSteps_xor, bitSteps_high, ← htab, word_xor, UInt8.zero_xor, round]

theorem word_foldl_round (htab : Tabulates poly high low) (crc : UInt8 × UInt8)
    (msg : List UInt8) :
    word (msg.foldl (round high low) crc).2 (msg.foldl (round high low) crc).1 =
      msg.foldl (byteStep poly) (word crc.2 crc.1) := by
  -- induction on the message, the register kept in step
  induction msg generalizing crc with
  | nil => rfl
  | cons x msg ih => rw [List.foldl_cons, List.foldl_cons, ih, word_round htab]

/-- **The tables compute the bitwise checksum.** What they return is the register with its
two bytes exchanged. -/
theorem tableCrc_eq (htab : Tabulates poly high low) (msg : List UInt8) :
    tableCrc high low msg = swapBytes (bitwiseCrc poly msg) := by
  have hreg := word_foldl_round htab (0xFF, 0xFF) msg
  rw [show word 0xFF 0xFF = 0xFFFF from rfl] at hreg
  rw [bitwiseCrc, ← hreg, swapBytes_word, tableCrc, shiftLeft_or_eq_word]

/-- **Residue.** Two bytes are the checksum of a body, high byte first, exactly when the
register is empty after all of them. -/
theorem trailer_iff (hpoly : 0x8000 ≤ poly.toNat) (htab : Tabulates poly high low)
    (body : List UInt8) (x y : UInt8) :
    word x y = tableCrc high low body ↔ bitwiseCrc poly (body ++ [x, y]) = 0 := by
  obtain ⟨hi, lo, hreg⟩ := exists_word (bitwiseCrc poly body)
  have hfull : bitwiseCrc poly (body ++ [x, y]) =
      (bitStep poly)^[16] (word hi lo ^^^ word y x) := by
    rw [hreg, ← byteStep_byteStep, bitwiseCrc, List.foldl_append]
    rfl
  have hzero : (bitStep poly)^[16] 0 = 0 := by
    have hlinear : (bitStep poly)^[16] (0 ^^^ 0) = _ := bitSteps_xor 16 0 0
    simpa using hlinear
  rw [tableCrc_eq htab, ← hreg, swapBytes_word, hfull]
  constructor
  · intro h
    obtain ⟨rfl, rfl⟩ := word_inj h
    rw [UInt16.xor_self, hzero]
  · intro h
    rw [← hzero] at h
    have hsame := UInt16.xor_eq_zero_iff.mp (bitSteps_injective hpoly 16 h)
    obtain ⟨rfl, rfl⟩ := word_inj hsame
    rfl

end Tables

end Lib.Crc
