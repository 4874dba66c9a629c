import FanGateway.Lib.OnesComplement

/-!
# The Internet checksum

The checksum of a buffer is computed two bytes at a time from the first even address on,
so it depends on where the buffer lies how its bytes are paired; a buffer at an odd
address is summed with the bytes of every word exchanged, and the sum is exchanged at the
end. A chain of buffers is summed piece by piece, and behind a piece of odd length the sum
so far is exchanged.

In the end nothing of this matters: the checksum is that of the bytes in their order.
-/

namespace FanGateway.Lwip

open Lib

/-- `FOLD_U32T`. -/
def foldU32t (u : ℕ) : ℕ := (u >>> 16) + (u &&& 0xffff)

/-- `SWAP_BYTES_IN_WORD`. -/
def swapBytesInWord (w : ℕ) : ℕ := ((w &&& 0xff) <<< 8) ||| ((w &&& 0xff00) >>> 8)

/-- The loop over the words of a buffer, with the byte that is left over. -/
def sumWords (sum : ℕ) : List UInt8 → ℕ × UInt8
  | b₀ :: b₁ :: data => sumWords ((sum + (b₀.toNat + 256 * b₁.toNat)) % 2 ^ 32) data
  | [b] => (sum, b)
  | [] => (sum, 0)

/-- `lwip_standard_chksum`: the bytes at an address. The end bytes are the two bytes of `t`. -/
def lwipStandardChksum (dataptr : ℕ) (data : List UInt8) : ℕ :=
  let odd := dataptr &&& 1 = 1
  let t₁ := if odd then data.headD 0 else 0
  let (sum, t₀) := sumWords 0 (if odd then data.tail else data)
  let sum := (sum + (t₀.toNat + 256 * t₁.toNat)) % 2 ^ 32
  let sum := foldU32t (foldU32t sum)
  (if odd then swapBytesInWord sum else sum) % 2 ^ 16

/-- `inet_chksum`. -/
def inetChksum (dataptr : ℕ) (data : List UInt8) : ℕ :=
  0xffff - lwipStandardChksum dataptr data

/-- A buffer of a chain: the address of its payload and the bytes there, of which `u16_t len`
says how many there are. -/
structure Pbuf where
  payload : ℕ
  data : List UInt8
  len_lt : data.length < 2 ^ 16

/-- The bytes of a chain. -/
def bytes (p : List Pbuf) : List UInt8 := p.flatMap Pbuf.data

/-- The loop over a chain, with the sum so far and whether its bytes are exchanged. -/
def chksumLoop : List Pbuf → ℕ × Bool → ℕ × Bool
  | [], s => s
  | q :: p, (acc, swapped) =>
    let acc := foldU32t ((acc + lwipStandardChksum q.payload q.data) % 2 ^ 32)
    if q.data.length % 2 ≠ 0 then chksumLoop p (swapBytesInWord acc, !swapped)
    else chksumLoop p (acc, swapped)

/-- The sum over a chain. -/
def chksumChain (p : List Pbuf) : ℕ :=
  let (acc, swapped) := chksumLoop p (0, false)
  if swapped then swapBytesInWord acc else acc

/-- `inet_chksum_pbuf`. -/
def inetChksumPbuf (p : List Pbuf) : ℕ := 0xffff - (chksumChain p &&& 0xffff)

/-- `htons`. -/
def htons (n : ℕ) : ℕ := ((n &&& 0xff) <<< 8) ||| ((n &&& 0xff00) >>> 8)

/-- `inet_chksum_pseudo`. -/
def inetChksumPseudo (p : List Pbuf) (src dest : UInt32) (proto : UInt8) (protoLen : UInt16) : ℕ :=
  let acc := chksumChain p
  let acc := (acc + (src.toNat &&& 0xffff)) % 2 ^ 32
  let acc := (acc + (src.toNat >>> 16 &&& 0xffff)) % 2 ^ 32
  let acc := (acc + (dest.toNat &&& 0xffff)) % 2 ^ 32
  let acc := (acc + (dest.toNat >>> 16 &&& 0xffff)) % 2 ^ 32
  let acc := (acc + htons proto.toNat) % 2 ^ 32
  let acc := (acc + htons protoLen.toNat) % 2 ^ 32
  let acc := foldU32t (foldU32t acc)
  0xffff - (acc &&& 0xffff)

/-! ## Folding and exchanging -/

variable {u w n : ℕ} {data : List UInt8}

theorem foldU32t_eq : foldU32t u = u / 2 ^ 16 + u % 2 ^ 16 := by
  rw [foldU32t, Nat.shiftRight_eq_div_pow, Nat.and_two_pow_sub_one_eq_mod (n := 16)]

theorem endAround_lt : endAround 0xffff n < 2 ^ 16 :=
  Nat.lt_succ_of_le (endAround_le (by decide))

theorem endAround_foldU32t : endAround 0xffff (foldU32t u) = endAround 0xffff u := by
  rw [foldU32t_eq]
  exact endAround_fold

/-- Two folds of a word of 32 bits are a word of 16 bits. -/
theorem foldU32t_foldU32t (hu : u < 2 ^ 32) : foldU32t (foldU32t u) = endAround 0xffff u := by
  have hle : foldU32t (foldU32t u) ≤ 0xffff := by
    rw [foldU32t_eq, foldU32t_eq]
    omega
  rw [← endAround_of_le hle, endAround_foldU32t, endAround_foldU32t]

/-- One fold is enough for the sum of two words of 16 bits. -/
theorem foldU32t_of_le (hu : u ≤ 0xffff + 0xffff) : foldU32t u = endAround 0xffff u := by
  have hle : foldU32t u ≤ 0xffff := by
    rw [foldU32t_eq]
    omega
  rw [← endAround_of_le hle, endAround_foldU32t]

theorem swapBytesInWord_eq (hw : w < 2 ^ 16) :
    swapBytesInWord w = w % 256 * 256 + w / 256 := by
  have hhigh : (w &&& 0xff00) >>> 8 = w / 256 := by
    rw [Nat.shiftRight_and_distrib, Nat.shiftRight_eq_div_pow,
      show (0xff00 : ℕ) >>> 8 = 2 ^ 8 - 1 from rfl, Nat.and_two_pow_sub_one_eq_mod,
      Nat.mod_eq_of_lt (by omega)]
  rw [swapBytesInWord, hhigh, show (0xff : ℕ) = 2 ^ 8 - 1 from rfl,
    Nat.and_two_pow_sub_one_eq_mod, ← Nat.shiftLeft_add_eq_or_of_lt (by omega),
    Nat.shiftLeft_eq]

theorem swapBytesInWord_le (hw : w < 2 ^ 16) : swapBytesInWord w ≤ 0xffff := by
  rw [swapBytesInWord_eq hw]
  omega

/-- Exchanging the bytes of a word is multiplication by 256. -/
theorem swapBytesInWord_endAround :
    swapBytesInWord (endAround 0xffff n) = endAround 0xffff (256 * n) := by
  have hn : endAround 0xffff n < 2 ^ 16 := endAround_lt
  rw [← endAround_mul, ← endAround_of_le (swapBytesInWord_le hn), swapBytesInWord_eq hn]
  generalize endAround 0xffff n = w
  refine endAround_congr ?_ (by omega)
  rw [Nat.ModEq]
  omega

/-! ## One buffer -/

/-- The weighted bytes of a buffer. -/
def weighBytes (high : Bool) (data : List UInt8) : ℕ := weigh 256 high (data.map UInt8.toNat)

theorem weighBytes_append {high : Bool} {data data' : List UInt8} :
    weighBytes high (data ++ data') =
      weighBytes high data + weighBytes (high ^^ data.length.bodd) data' := by
  rw [weighBytes, List.map_append, weigh_append, List.length_map, weighBytes, weighBytes]

theorem swapBytesInWord_weighBytes {high : Bool} :
    swapBytesInWord (endAround 0xffff (weighBytes high data)) =
      endAround 0xffff (weighBytes (!high) data) := by
  rw [swapBytesInWord_endAround]
  exact endAround_mul_weigh (b := 256) (by decide)

theorem weighBytes_false_le : weighBytes false data ≤ 0xffff * ((data.length + 1) / 2) := by
  have hbyte : ∀ x ∈ data.map UInt8.toNat, x ≤ 255 := fun x hx => by
    obtain ⟨b, -, rfl⟩ := List.mem_map.mp hx
    exact Nat.le_of_lt_succ b.toNat_lt
  have h := weigh_false_le (b := 256) hbyte
  rwa [List.length_map] at h

theorem sumWords_eq (sum : ℕ) (data : List UInt8) (hsum : sum + weighBytes false data < 2 ^ 32) :
    (sumWords sum data).1 + (sumWords sum data).2.toNat = sum + weighBytes false data := by
  induction sum, data using sumWords.induct with
  | case1 sum b₀ b₁ data ih =>
    have hcons : weighBytes false (b₀ :: b₁ :: data) =
        b₀.toNat + 256 * b₁.toNat + weighBytes false data := by
      simp [weighBytes, Nat.add_assoc]
    rw [hcons, ← Nat.add_assoc] at hsum
    have hmod : (sum + (b₀.toNat + 256 * b₁.toNat)) % 2 ^ 32 =
        sum + (b₀.toNat + 256 * b₁.toNat) := Nat.mod_eq_of_lt (by omega)
    rw [hmod] at ih
    rw [sumWords, hmod, ih hsum, hcons, Nat.add_assoc, Nat.add_assoc]
  | case2 sum b => simp [sumWords, weighBytes]
  | case3 sum => simp [sumWords, weighBytes]

/-- The checksum of a buffer of up to `0x20000` bytes does not depend on its address. -/
theorem lwipStandardChksum_eq (dataptr : ℕ) (hlen : data.length ≤ 0x20000) :
    lwipStandardChksum dataptr data = endAround 0xffff (weighBytes false data) := by
  have hle (n : ℕ) : endAround 0xffff n % 2 ^ 16 = endAround 0xffff n :=
    Nat.mod_eq_of_lt endAround_lt
  rw [lwipStandardChksum]
  dsimp only
  by_cases hodd : dataptr &&& 1 = 1
  · rw [if_pos hodd, if_pos hodd, if_pos hodd]
    have hsplit : 256 * (data.headD 0).toNat + weighBytes false data.tail =
        weighBytes true data := by
      cases data with
      | nil => rfl
      | cons b data => simp [weighBytes]
    have htail : weighBytes false data.tail ≤ 0xffff * 0x10000 := by
      refine weighBytes_false_le.trans (Nat.mul_le_mul_left _ ?_)
      rw [List.length_tail]
      omega
    have hhead := (data.headD 0).toNat_lt
    have hsum := sumWords_eq 0 data.tail (by omega)
    have htotal : (sumWords 0 data.tail).1 + ((sumWords 0 data.tail).2.toNat +
        256 * (data.headD 0).toNat) = weighBytes true data := by
      omega
    rw [htotal, Nat.mod_eq_of_lt (show weighBytes true data < 2 ^ 32 by omega),
      foldU32t_foldU32t (by omega), swapBytesInWord_weighBytes, Bool.not_true, hle]
  · rw [if_neg hodd, if_neg hodd, if_neg hodd]
    have hbound : weighBytes false data ≤ 0xffff * 0x10000 := by
      refine weighBytes_false_le.trans (Nat.mul_le_mul_left _ ?_)
      omega
    have hsum := sumWords_eq 0 data (by omega)
    have htotal : (sumWords 0 data).1 + ((sumWords 0 data).2.toNat + 256 * (0 : UInt8).toNat) =
        weighBytes false data := by
      rw [show (0 : UInt8).toNat = 0 from rfl]
      omega
    rw [htotal, Nat.mod_eq_of_lt (show weighBytes false data < 2 ^ 32 by omega),
      foldU32t_foldU32t (by omega), hle]

/-! ## Chains -/

/-- Behind a piece of a chain the sum is that of all bytes so far, exchanged if there has been an
odd number of them. -/
theorem chksumLoop_eq (p : List Pbuf) (before : List UInt8) :
    chksumLoop p (endAround 0xffff (weighBytes before.length.bodd before), before.length.bodd) =
      (endAround 0xffff (weighBytes (before ++ bytes p).length.bodd (before ++ bytes p)),
        (before ++ bytes p).length.bodd) := by
  induction p generalizing before with
  | nil => simp [chksumLoop, bytes]
  | cons q p ih =>
    have hbytes : before ++ bytes (q :: p) = before ++ q.data ++ bytes p := by
      simp [bytes]
    have hchksum := lwipStandardChksum_eq q.payload
      (show q.data.length ≤ 0x20000 from Nat.le_of_lt (q.len_lt.trans (by decide)))
    have hle (n : ℕ) : endAround 0xffff n ≤ 0xffff := endAround_le (by decide)
    have hadd := Nat.add_le_add (hle (weighBytes before.length.bodd before))
      (hle (weighBytes false q.data))
    have hacc : foldU32t ((endAround 0xffff (weighBytes before.length.bodd before) +
        lwipStandardChksum q.payload q.data) % 2 ^ 32) =
          endAround 0xffff (weighBytes before.length.bodd (before ++ q.data)) := by
      rw [hchksum, Nat.mod_eq_of_lt (hadd.trans_lt (by decide)), foldU32t_of_le hadd,
        endAround_add_left, endAround_add_right, weighBytes_append, Bool.xor_self]
    have hmod := Nat.mod_two_of_bodd q.data.length
    have hbodd : (before ++ q.data).length.bodd = (before.length.bodd ^^ q.data.length.bodd) := by
      rw [List.length_append, Nat.bodd_add]
    rw [chksumLoop, hacc, hbytes, ← ih (before ++ q.data)]
    cases hq : q.data.length.bodd with
    | false =>
      rw [hq] at hmod hbodd
      have heven : q.data.length % 2 = 0 := hmod
      rw [if_neg (not_not.mpr heven), hbodd, Bool.xor_false]
    | true =>
      rw [hq] at hmod hbodd
      have hodd : q.data.length % 2 = 1 := hmod
      rw [if_pos (by rw [hodd]; decide), swapBytesInWord_weighBytes, hbodd, Bool.xor_true]

theorem chksumChain_eq (p : List Pbuf) :
    chksumChain p = endAround 0xffff (weighBytes false (bytes p)) := by
  have hloop := chksumLoop_eq p []
  rw [List.nil_append] at hloop
  rw [chksumChain]
  change (match chksumLoop p (0, false) with
    | (acc, swapped) => if swapped = true then swapBytesInWord acc else acc) = _
  rw [show ((0, false) : ℕ × Bool) = (endAround 0xffff (weighBytes [].length.bodd []),
    ([] : List UInt8).length.bodd) from rfl, hloop]
  dsimp only
  cases hodd : (bytes p).length.bodd with
  | false => rfl
  | true => exact swapBytesInWord_weighBytes

/-! ## What the checksums are -/

theorem and_ffff : n &&& 0xffff = n % 2 ^ 16 := Nat.and_two_pow_sub_one_eq_mod n 16

theorem endAround_and_ffff : endAround 0xffff n &&& 0xffff = endAround 0xffff n := by
  rw [and_ffff, Nat.mod_eq_of_lt endAround_lt]

theorem htons_eq_swapBytesInWord : htons n = swapBytesInWord n := rfl

theorem htons_le (hn : n < 2 ^ 16) : htons n ≤ 0xffff := swapBytesInWord_le hn

/-- What the addresses, the protocol and the length contribute. -/
def pseudoSum (src dest : UInt32) (proto : UInt8) (protoLen : UInt16) : ℕ :=
  src.toNat % 2 ^ 16 + src.toNat / 2 ^ 16 + (dest.toNat % 2 ^ 16 + dest.toNat / 2 ^ 16) +
    (htons proto.toNat + htons protoLen.toNat)

theorem pseudoSum_le (src dest : UInt32) (proto : UInt8) (protoLen : UInt16) :
    pseudoSum src dest proto protoLen ≤ 6 * 0xffff := by
  have hsrc := src.toNat_lt
  have hdest := dest.toNat_lt
  have hproto : htons proto.toNat ≤ 0xffff := htons_le (proto.toNat_lt.trans (by decide))
  have hlen : htons protoLen.toNat ≤ 0xffff := htons_le protoLen.toNat_lt
  rw [pseudoSum]
  omega

theorem inetChksumPbuf_eq (p : List Pbuf) :
    inetChksumPbuf p = 0xffff - endAround 0xffff (weighBytes false (bytes p)) := by
  rw [inetChksumPbuf, chksumChain_eq, endAround_and_ffff]

theorem inetChksumPseudo_eq (p : List Pbuf) (src dest : UInt32) (proto : UInt8)
    (protoLen : UInt16) : inetChksumPseudo p src dest proto protoLen =
      0xffff - endAround 0xffff (weighBytes false (bytes p) + pseudoSum src dest proto protoLen) := by
  have hsrc := src.toNat_lt
  have hdest := dest.toNat_lt
  have hproto : htons proto.toNat ≤ 0xffff := htons_le (proto.toNat_lt.trans (by decide))
  have hlen : htons protoLen.toNat ≤ 0xffff := htons_le protoLen.toNat_lt
  have hchain : endAround 0xffff (weighBytes false (bytes p)) ≤ 0xffff := endAround_le (by decide)
  have hhigh (a : UInt32) : a.toNat >>> 16 &&& 0xffff = a.toNat / 2 ^ 16 := by
    have ha := a.toNat_lt
    rw [and_ffff, Nat.shiftRight_eq_div_pow, Nat.mod_eq_of_lt (by omega)]
  rw [inetChksumPseudo, hhigh src, hhigh dest, and_ffff (n := src.toNat),
    and_ffff (n := dest.toNat), chksumChain_eq, ← endAround_add_left]
  generalize endAround 0xffff (weighBytes false (bytes p)) = acc at hchain ⊢
  have hsum : (((((((acc + src.toNat % 2 ^ 16) % 2 ^ 32 + src.toNat / 2 ^ 16) % 2 ^ 32 +
      dest.toNat % 2 ^ 16) % 2 ^ 32 + dest.toNat / 2 ^ 16) % 2 ^ 32 +
      htons proto.toNat) % 2 ^ 32 + htons protoLen.toNat) % 2 ^ 32) =
        acc + pseudoSum src dest proto protoLen := by
    rw [pseudoSum]
    omega
  rw [hsum, foldU32t_foldU32t (by
    have hpseudo := pseudoSum_le src dest proto protoLen
    omega), endAround_and_ffff]

theorem inetChksum_eq (dataptr : ℕ) (hlen : data.length ≤ 0x20000) :
    inetChksum dataptr data = 0xffff - endAround 0xffff (weighBytes false data) := by
  rw [inetChksum, lwipStandardChksum_eq dataptr hlen]

/-- Checksums depend on the bytes and their order alone, not on where the buffers lie or where the
one ends and the next begins: a chain has the checksum of its bytes in one buffer. -/
theorem chksum_of_bytes {p p' : List Pbuf} (h : bytes p = bytes p') :
    inetChksumPbuf p = inetChksumPbuf p' ∧
    (∀ src dest proto protoLen, inetChksumPseudo p src dest proto protoLen =
      inetChksumPseudo p' src dest proto protoLen) ∧
    ∀ dataptr, (bytes p).length ≤ 0x20000 → inetChksum dataptr (bytes p) = inetChksumPbuf p := by
  refine ⟨?_, fun src dest proto protoLen => ?_, fun dataptr hlen => ?_⟩
  · rw [inetChksumPbuf_eq, inetChksumPbuf_eq, h]
  · rw [inetChksumPseudo_eq, inetChksumPseudo_eq, h]
  · rw [inetChksum_eq dataptr hlen, inetChksumPbuf_eq]

/-- Five bytes in pieces of three and two at odd addresses, and in one piece. -/
theorem chksum_of_bytes_split :
    let p : List Pbuf := [⟨1, [1, 2, 3], by decide⟩, ⟨7, [4, 5], by decide⟩]
    let p' : List Pbuf := [⟨0, [1, 2, 3, 4, 5], by decide⟩]
    inetChksumPbuf p = inetChksumPbuf p' :=
  (chksum_of_bytes (by decide)).1

end FanGateway.Lwip
