import Mathlib.Data.List.Basic
import Mathlib.Tactic.NormNum

/-!
# Byte-wise sixteen-bit checksums driven by a pair of tables

The checksum register is kept as two bytes. Each message byte selects one entry
of a high and of a low table; the high entry is mixed with the old low byte and
the low entry replaces it. The result travels high byte first.
-/

namespace Lib.Crc

/-- A table with one byte for each byte. -/
abbrev ByteTable := Vector UInt8 256

/-- The entry a byte selects. -/
def ByteTable.entry (table : ByteTable) (index : UInt8) : UInt8 :=
  table.get ⟨index.toNat, index.toNat_lt⟩

/-- The two bytes of a sixteen-bit word, high byte first. -/
def bytes (w : UInt16) : List UInt8 := [(w >>> 8).toUInt8, (w &&& 0xFF).toUInt8]

/-- The word with the given high and low bytes. -/
def word (hi lo : UInt8) : UInt16 := hi.toUInt16 * 256 + lo.toUInt16

@[simp] theorem length_bytes (w : UInt16) : (bytes w).length = 2 := rfl

theorem toNat_word (hi lo : UInt8) : (word hi lo).toNat = hi.toNat * 256 + lo.toNat := by
  have hhi := hi.toNat_lt
  have hlo := lo.toNat_lt
  simp only [word, UInt16.toNat_add, UInt16.toNat_mul, UInt8.toNat_toUInt16]
  have h256 : (256 : UInt16).toNat = 256 := rfl
  rw [h256]
  omega

private theorem toNat_high (w : UInt16) : (w >>> 8).toUInt8.toNat = w.toNat / 256 := by
  have hw := w.toNat_lt
  rw [UInt16.toNat_toUInt8, UInt16.toNat_shiftRight,
    show (8 : UInt16).toNat % 16 = 8 from rfl, Nat.shiftRight_eq_div_pow]
  omega

private theorem toNat_low (w : UInt16) : (w &&& 0xFF).toUInt8.toNat = w.toNat % 256 := by
  rw [UInt16.toNat_toUInt8, UInt16.toNat_and, show (0xFF : UInt16).toNat = 2 ^ 8 - 1 from rfl,
    Nat.and_two_pow_sub_one_eq_mod]
  omega

/-- Taking a word apart and putting it together again. -/
theorem word_bytes (w : UInt16) : word (w >>> 8).toUInt8 (w &&& 0xFF).toUInt8 = w := by
  apply UInt16.toNat_inj.mp
  rw [toNat_word, toNat_high, toNat_low]
  omega

/-- Two bytes form a word exactly when they are its bytes. -/
theorem word_eq_iff {hi lo : UInt8} {w : UInt16} : word hi lo = w ↔ [hi, lo] = bytes w := by
  constructor
  · rintro rfl
    have hlo := lo.toNat_lt
    have hhigh : (word hi lo >>> 8).toUInt8 = hi := by
      apply UInt8.toNat_inj.mp
      rw [toNat_high, toNat_word]
      omega
    have hlow : (word hi lo &&& 0xFF).toUInt8 = lo := by
      apply UInt8.toNat_inj.mp
      rw [toNat_low, toNat_word]
      omega
    rw [bytes, hhigh, hlow]
  · intro h
    obtain ⟨rfl, rfl⟩ : hi = (w >>> 8).toUInt8 ∧ lo = (w &&& 0xFF).toUInt8 := by
      simpa [bytes] using h
    exact word_bytes w

/-- Joining with a shift instead of a product gives the same word. -/
theorem shiftLeft_or_eq_word (hi lo : UInt8) :
    (hi.toUInt16 <<< 8) ||| lo.toUInt16 = word hi lo := by
  apply UInt16.toNat_inj.mp
  have hhi := hi.toNat_lt
  have hlo := lo.toNat_lt
  -- the two bytes have no bit in common
  rw [toNat_word, UInt16.toNat_or, UInt16.toNat_shiftLeft, UInt8.toNat_toUInt16,
    UInt8.toNat_toUInt16, show (8 : UInt16).toNat % 16 = 8 from rfl, Nat.shiftLeft_eq]
  rw [Nat.mod_eq_of_lt (by omega), ← Nat.shiftLeft_eq, Nat.shiftLeft_add_eq_or_of_lt (by omega),
    Nat.shiftLeft_eq]

/-- One message byte. -/
def round (high low : ByteTable) (crc : UInt8 × UInt8) (byte : UInt8) : UInt8 × UInt8 :=
  let index := crc.1 ^^^ byte
  (crc.2 ^^^ high.entry index, low.entry index)

/-- The checksum of a message, from the all-ones register. -/
def tableCrc (high low : ByteTable) (msg : List UInt8) : UInt16 :=
  let crc := msg.foldl (round high low) (0xFF, 0xFF)
  (crc.1.toUInt16 <<< 8) ||| crc.2.toUInt16

end Lib.Crc
