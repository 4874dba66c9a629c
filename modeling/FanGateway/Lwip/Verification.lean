import FanGateway.Lwip.Checksum

/-!
# What the receiver's check finds

The receiver of a packet adds the checksum to the sum of the other words and expects the
largest word, so that the checksum of the whole is zero. A packet passes if the sender has
stored the checksum in it, and a packet that passes passes no longer if one word of it is
changed, up to the two words for zero.

The header of an outgoing packet is summed field by field while it is written. The reply to
an echo request keeps the request's sum: its type is smaller by eight, and its checksum is
made greater by as much. Only if this makes every word of the reply zero does it not pass.
-/

namespace FanGateway.Lwip

open Lib

variable {a b c n : ℕ} {before after data : List UInt8}

/-- A word as it lies in memory. -/
def leBytes (w : ℕ) : List UInt8 := [UInt8.ofNat w, UInt8.ofNat (w / 256)]

theorem weighBytes_leBytes (h : a < 2 ^ 16) : weighBytes false (leBytes a) = a := by
  have hlow : (UInt8.ofNat a).toNat = a % 256 := UInt8.toNat_ofNat
  have hhigh : (UInt8.ofNat (a / 256)).toNat = a / 256 % 256 := UInt8.toNat_ofNat
  rw [weighBytes, leBytes, List.map_cons, List.map_cons, List.map_nil, weigh_false_cons,
    weigh_true_cons, weigh_nil, hlow, hhigh]
  omega

/-- The sum of a packet with a word behind an even number of bytes. -/
theorem weighBytes_word (heven : before.length.bodd = false) (ha : a < 2 ^ 16) :
    weighBytes false (before ++ leBytes a ++ after) =
      weighBytes false before + weighBytes false after + a := by
  have hbodd : (before ++ leBytes a).length.bodd = false := by
    rw [List.length_append, Nat.bodd_add, heven]
    simp [leBytes]
  rw [weighBytes_append, weighBytes_append, heven, hbodd, Bool.xor_self, weighBytes_leBytes ha]
  omega

/-! ## Checks of the receiver -/

/-- The check passes if the sum is the largest word. -/
theorem sub_endAround_eq_zero_iff :
    0xffff - endAround 0xffff n = 0 ↔ n ≠ 0 ∧ 0xffff ∣ n := by
  have hle : endAround 0xffff n ≤ 0xffff := endAround_le (by decide)
  rw [← endAround_eq_self_iff (by decide)]
  omega

theorem passes_of_store {p p' : List Pbuf} (src dest : UInt32) (proto : UInt8) (protoLen : UInt16)
    (heven : before.length.bodd = false) (hp : bytes p = before ++ leBytes 0 ++ after)
    (hp' : bytes p' =
      before ++ leBytes (inetChksumPseudo p src dest proto protoLen) ++ after) :
    inetChksumPseudo p' src dest proto protoLen = 0 := by
  have hchksum := inetChksumPseudo_eq p src dest proto protoLen
  have hle : inetChksumPseudo p src dest proto protoLen < 2 ^ 16 := by
    rw [hchksum]
    omega
  rw [inetChksumPseudo_eq p', hp', weighBytes_word heven hle, hchksum, hp,
    weighBytes_word heven (by decide), Nat.add_zero]
  have hcompl := endAround_add_compl (m := 0xffff) (n := weighBytes false before +
    weighBytes false after + pseudoSum src dest proto protoLen) (by decide)
  rw [Nat.add_right_comm _ (pseudoSum src dest proto protoLen)] at hcompl
  rw [hcompl]

/-- The same without addresses, for a buffer that lies elsewhere at the receiver. -/
theorem inetChksum_store (dataptr dataptr' : ℕ) (heven : before.length.bodd = false)
    (hlen : (before ++ leBytes 0 ++ after).length ≤ 0x20000) :
    inetChksum dataptr' (before ++
      leBytes (inetChksum dataptr (before ++ leBytes 0 ++ after)) ++ after) = 0 := by
  have hchksum := inetChksum_eq dataptr hlen
  have hle : inetChksum dataptr (before ++ leBytes 0 ++ after) < 2 ^ 16 := by
    rw [hchksum]
    omega
  have hlen' : (before ++ leBytes (inetChksum dataptr (before ++ leBytes 0 ++ after)) ++
      after).length ≤ 0x20000 := by
    simpa [leBytes] using hlen
  rw [inetChksum_eq dataptr' hlen', weighBytes_word heven hle, hchksum,
    weighBytes_word heven (by decide), Nat.add_zero, endAround_add_compl (by decide)]

/-! ### Datagrams -/

/-- `IP_PROTO_UDP`. -/
def ipProtoUdp : UInt8 := 17

/-- The checksum that `udp_sendto_if` stores, where zero would mean that there is none. -/
def udpChksum (q : List Pbuf) (src dest : UInt32) (totLen : UInt16) : ℕ :=
  let udpchksum := inetChksumPseudo q src dest ipProtoUdp totLen
  if udpchksum = 0 then 0xffff else udpchksum

/-- What `udp_input` asks of a datagram whose header has a checksum. -/
def udpInputPasses (p : List Pbuf) (chksum : ℕ) (src dest : UInt32) (totLen : UInt16) : Bool :=
  chksum = 0 ∨ inetChksumPseudo p src dest ipProtoUdp totLen = 0

/-- A datagram that has been sent with a checksum is checked and passes, in whatever pieces it
arrives. -/
theorem udpChksum_passes {q p : List Pbuf} (src dest : UInt32) (totLen : UInt16)
    {ports : List UInt8} (hports : ports.length = 6) (hq : bytes q = ports ++ leBytes 0 ++ data)
    (hp : bytes p = ports ++ leBytes (udpChksum q src dest totLen) ++ data) :
    udpChksum q src dest totLen ≠ 0 ∧
      udpInputPasses p (udpChksum q src dest totLen) src dest totLen = true := by
  have heven : ports.length.bodd = false := by
    rw [hports]
    simp
  rw [udpInputPasses, decide_eq_true_iff]
  rw [udpChksum] at hp ⊢
  by_cases hzero : inetChksumPseudo q src dest ipProtoUdp totLen = 0
  · rw [if_pos hzero] at hp ⊢
    refine ⟨by decide, .inr ?_⟩
    -- the sum without the checksum is a multiple of the largest word already
    rw [inetChksumPseudo_eq, hq, weighBytes_word heven (by decide), Nat.add_zero,
      sub_endAround_eq_zero_iff] at hzero
    rw [inetChksumPseudo_eq, hp, weighBytes_word heven (by decide), sub_endAround_eq_zero_iff]
    omega
  · rw [if_neg hzero] at hp ⊢
    exact ⟨hzero, .inr (passes_of_store src dest ipProtoUdp totLen heven hq hp)⟩

/-- A datagram of two bytes that is sent in one piece and arrives in two. -/
theorem udpChksum_passes_split :
    let q : List Pbuf := [⟨0, [0, 1, 0, 2, 0, 10, 0, 0, 65, 66], by decide⟩]
    let p : List Pbuf := [⟨5, [0, 1, 0, 2, 0, 10, 190], by decide⟩, ⟨8, [149, 65, 66], by decide⟩]
    udpInputPasses p (udpChksum q 0 0 10) 0 0 10 = true :=
  (@udpChksum_passes [65, 66] [⟨0, [0, 1, 0, 2, 0, 10, 0, 0, 65, 66], by decide⟩]
    [⟨5, [0, 1, 0, 2, 0, 10, 190], by decide⟩, ⟨8, [149, 65, 66], by decide⟩]
    0 0 10 [0, 1, 0, 2, 0, 10] rfl (by decide +kernel) (by decide +kernel)).2

/-! ### Headers -/

/-- A header without options; the fields of two and four bytes are as they lie in memory. -/
structure IpHdr where
  vHl : UInt8
  tos : UInt8
  len : UInt16
  id : UInt16
  ttl : UInt8
  proto : UInt8
  src : UInt32
  dest : UInt32

/-- The bytes of a header whose offset is zero. -/
def IpHdr.bytes (h : IpHdr) (chksum : ℕ) : List UInt8 :=
  ([h.vHl, h.tos] ++ leBytes h.len.toNat ++ leBytes h.id.toNat ++ leBytes 0 ++ [h.ttl, h.proto]) ++
    leBytes chksum ++
      (leBytes (h.src.toNat % 2 ^ 16) ++ leBytes (h.src.toNat / 2 ^ 16) ++
        leBytes (h.dest.toNat % 2 ^ 16) ++ leBytes (h.dest.toNat / 2 ^ 16))

/-- `LWIP_MAKE_U16`. -/
def lwipMakeU16 (a b : UInt8) : ℕ := (a.toNat <<< 8) ||| b.toNat

/-- The sum that `ip_output_if_opt` keeps while it writes a header. -/
def IpHdr.chkSum (h : IpHdr) : ℕ :=
  let chkSum := lwipMakeU16 h.proto h.ttl
  let chkSum := (chkSum + (h.dest.toNat &&& 0xFFFF)) % 2 ^ 32
  let chkSum := (chkSum + (h.dest.toNat >>> 16)) % 2 ^ 32
  let chkSum := (chkSum + lwipMakeU16 h.tos h.vHl) % 2 ^ 32
  let chkSum := (chkSum + h.len.toNat) % 2 ^ 32
  let chkSum := (chkSum + h.id.toNat) % 2 ^ 32
  let chkSum := (chkSum + (h.src.toNat &&& 0xFFFF)) % 2 ^ 32
  let chkSum := (chkSum + (h.src.toNat >>> 16)) % 2 ^ 32
  let chkSum := (chkSum >>> 16) + (chkSum &&& 0xFFFF)
  let chkSum := (chkSum >>> 16) + chkSum
  (2 ^ 32 - 1 - chkSum) % 2 ^ 16

theorem lwipMakeU16_eq (a b : UInt8) : lwipMakeU16 a b = b.toNat + 256 * a.toNat := by
  have hb := b.toNat_lt
  rw [lwipMakeU16, ← Nat.shiftLeft_add_eq_or_of_lt hb, Nat.shiftLeft_eq, Nat.add_comm,
    Nat.mul_comm]

theorem weighBytes_pair (a b : UInt8) : weighBytes false [a, b] = lwipMakeU16 b a := by
  rw [lwipMakeU16_eq]
  simp [weighBytes]

theorem IpHdr.weighBytes_bytes (h : IpHdr) (hc : c < 2 ^ 16) :
    weighBytes false (h.bytes c) = lwipMakeU16 h.proto h.ttl + h.dest.toNat % 2 ^ 16 +
      h.dest.toNat / 2 ^ 16 + lwipMakeU16 h.tos h.vHl + h.len.toNat + h.id.toNat +
        h.src.toNat % 2 ^ 16 + h.src.toNat / 2 ^ 16 + c := by
  have hdest := h.dest.toNat_lt
  have hsrc := h.src.toNat_lt
  have hlen := h.len.toNat_lt
  have hid := h.id.toNat_lt
  rw [IpHdr.bytes, weighBytes_word (by simp [leBytes]) hc, lwipMakeU16_eq, lwipMakeU16_eq]
  simp only [weighBytes, leBytes, List.cons_append, List.nil_append, List.map_cons, List.map_nil,
    weigh_false_cons, weigh_true_cons, weigh_nil, UInt8.toNat_ofNat']
  omega

/-- The second fold of `ip_output_if_opt` leaves the upper word in place, which is cut off. -/
theorem compl_fold (hn : n < 2 ^ 32) :
    (2 ^ 32 - 1 - (foldU32t n >>> 16 + foldU32t n)) % 2 ^ 16 = 0xffff - endAround 0xffff n := by
  rw [← foldU32t_foldU32t hn, Nat.shiftRight_eq_div_pow, foldU32t_eq (u := foldU32t n),
    foldU32t_eq (u := n)]
  omega

theorem IpHdr.chkSum_eq (h : IpHdr) :
    h.chkSum = 0xffff - endAround 0xffff (weighBytes false (h.bytes 0)) := by
  have hdest := h.dest.toNat_lt
  have hsrc := h.src.toNat_lt
  have hlen := h.len.toNat_lt
  have hid := h.id.toNat_lt
  have hmake (a b : UInt8) : lwipMakeU16 a b < 2 ^ 16 := by
    have ha := a.toNat_lt
    have hb := b.toNat_lt
    rw [lwipMakeU16_eq]
    omega
  have hproto := hmake h.proto h.ttl
  have htos := hmake h.tos h.vHl
  have hsum : (((((((lwipMakeU16 h.proto h.ttl + h.dest.toNat % 2 ^ 16) % 2 ^ 32 +
      h.dest.toNat / 2 ^ 16) % 2 ^ 32 + lwipMakeU16 h.tos h.vHl) % 2 ^ 32 + h.len.toNat) % 2 ^ 32 +
      h.id.toNat) % 2 ^ 32 + h.src.toNat % 2 ^ 16) % 2 ^ 32 + h.src.toNat / 2 ^ 16) % 2 ^ 32 =
        weighBytes false (h.bytes 0) := by
    rw [h.weighBytes_bytes (by decide)]
    omega
  have hbound : weighBytes false (h.bytes 0) < 2 ^ 32 := by
    rw [← hsum]
    exact Nat.mod_lt _ (by decide)
  rw [← compl_fold hbound, ← hsum, IpHdr.chkSum, and_ffff (n := h.dest.toNat),
    and_ffff (n := h.src.toNat), Nat.shiftRight_eq_div_pow h.dest.toNat,
    Nat.shiftRight_eq_div_pow h.src.toNat]
  rfl

/-- The sum kept while the header is written is the checksum of the header, and with it the header
passes the check of `ip_input`, wherever it lies there. -/
theorem ipHdr_passes (h : IpHdr) (dataptr dataptr' : ℕ) :
    h.chkSum = inetChksum dataptr (h.bytes 0) ∧
      inetChksum dataptr' (h.bytes h.chkSum) = 0 := by
  have hlen (c : ℕ) : (h.bytes c).length ≤ 0x20000 := by simp [IpHdr.bytes, leBytes]
  have hchkSum : h.chkSum = inetChksum dataptr (h.bytes 0) := by
    rw [inetChksum_eq dataptr (hlen 0), h.chkSum_eq]
  refine ⟨hchkSum, ?_⟩
  rw [hchkSum]
  exact inetChksum_store dataptr dataptr' (by simp [leBytes]) (hlen 0)

/-! ## Damage -/

/-- A packet that passes, one word of which is replaced, passes again only if the word is the same
or both words stand for zero; the protocol number makes the sum of the rest positive. -/
theorem word_replaced {p p' : List Pbuf} {src dest : UInt32} {proto : UInt8} {protoLen : UInt16}
    (heven : before.length.bodd = false) (ha : a < 2 ^ 16) (hb : b < 2 ^ 16) (hproto : proto ≠ 0)
    (hp : bytes p = before ++ leBytes a ++ after) (hp' : bytes p' = before ++ leBytes b ++ after)
    (hpasses : inetChksumPseudo p src dest proto protoLen = 0) :
    inetChksumPseudo p' src dest proto protoLen = 0 ↔
      a = b ∨ a = 0 ∧ b = 0xffff ∨ a = 0xffff ∧ b = 0 := by
  have hpos : 0 < pseudoSum src dest proto protoLen := by
    have hne : proto.toNat ≠ 0 := fun hzero => hproto (UInt8.toNat_inj.mp hzero)
    have hlt := proto.toNat_lt
    have hhtons : htons proto.toNat ≠ 0 := by
      rw [htons_eq_swapBytesInWord, swapBytesInWord_eq (hlt.trans (by decide))]
      omega
    rw [pseudoSum]
    omega
  rw [inetChksumPseudo_eq, hp, weighBytes_word heven ha, sub_endAround_eq_zero_iff] at hpasses
  rw [inetChksumPseudo_eq, hp', weighBytes_word heven hb, sub_endAround_eq_zero_iff]
  omega

/-- In the datagram above a byte of the data is changed. -/
theorem word_replaced_byte :
    inetChksumPseudo [⟨0, [0, 1, 0, 2, 0, 10, 190, 149, 65, 67], by decide⟩] 0 0 17 10 = 0 ↔
      (16961 : ℕ) = 17217 ∨ (16961 : ℕ) = 0 ∧ (17217 : ℕ) = 0xffff ∨
        (16961 : ℕ) = 0xffff ∧ (17217 : ℕ) = 0 :=
  @word_replaced 16961 17217 [0, 1, 0, 2, 0, 10, 190, 149] []
    [⟨0, [0, 1, 0, 2, 0, 10, 190, 149, 65, 66], by decide⟩] _ 0 0 17 10 (by simp) (by decide)
    (by decide) (by decide) (by decide +kernel) (by decide +kernel) (by decide +kernel)

/-! ## Echo replies -/

/-- `ICMP_ECHO`. -/
def icmpEcho : UInt8 := 8

/-- `ICMP_ER`. -/
def icmpEr : UInt8 := 0

/-- A message with its type, its code and its checksum. -/
def icmpMessage (type code : UInt8) (chksum : ℕ) (data : List UInt8) : List UInt8 :=
  [type, code] ++ leBytes chksum ++ data

/-- How `icmp_input` adjusts the checksum. -/
def adjustChksum (chksum : ℕ) : ℕ :=
  if chksum ≥ htons (0xffff - icmpEcho.toNat <<< 8) then
    (chksum + (htons (icmpEcho.toNat <<< 8) + 1)) % 2 ^ 16
  else (chksum + htons (icmpEcho.toNat <<< 8)) % 2 ^ 16

theorem weighBytes_icmpMessage (type code : UInt8) (hc : c < 2 ^ 16) :
    weighBytes false (icmpMessage type code c data) =
      type.toNat + 256 * code.toNat + weighBytes false data + c := by
  rw [icmpMessage, weighBytes_word (by simp) hc, weighBytes_pair, lwipMakeU16_eq]

/-- The reply to an echo request that passes the check passes it exactly if not all of its code,
its identifier, its number and its data are zero. -/
theorem echoReply_passes_iff {p p' : List Pbuf} {code : UInt8} (hc : c < 2 ^ 16)
    (hp : bytes p = icmpMessage icmpEcho code c data)
    (hp' : bytes p' = icmpMessage icmpEr code (adjustChksum c) data)
    (hpasses : inetChksumPbuf p = 0) :
    inetChksumPbuf p' = 0 ↔ ¬ (code = 0 ∧ ∀ x ∈ data, x = 0) := by
  have hadjust : adjustChksum c < 2 ^ 16 := by
    rw [adjustChksum]
    split_ifs <;> exact Nat.mod_lt _ (by decide)
  have hzero : (code = 0 ∧ ∀ x ∈ data, x = 0) ↔
      code.toNat = 0 ∧ weighBytes false data = 0 := by
    rw [weighBytes, weigh_eq_zero_iff (by decide), ← UInt8.toNat_inj]
    refine and_congr Iff.rfl ?_
    simp [← UInt8.toNat_inj]
  rw [inetChksumPbuf_eq, hp, weighBytes_icmpMessage icmpEcho code hc,
    sub_endAround_eq_zero_iff] at hpasses
  rw [hzero, inetChksumPbuf_eq, hp', weighBytes_icmpMessage icmpEr code hadjust,
    sub_endAround_eq_zero_iff]
  have hlimit : htons (0xffff - icmpEcho.toNat <<< 8) = 0xfff7 := by decide
  have hstep : htons (icmpEcho.toNat <<< 8) = 8 := by decide
  have hecho : icmpEcho.toNat = 8 := rfl
  have her : icmpEr.toNat = 0 := rfl
  rw [hecho] at hpasses
  rw [her, adjustChksum, hlimit, hstep]
  split_ifs <;> omega

/-- A request without an identifier, a number and data gets a reply that does not pass. -/
theorem echoReply_passes_iff_empty :
    inetChksumPbuf [⟨0, [8, 0, 0xf7, 0xff, 0, 0, 0, 0], by decide⟩] = 0 ∧
      inetChksumPbuf [⟨0, [0, 0, 0, 0, 0, 0, 0, 0], by decide⟩] ≠ 0 :=
  ⟨by decide +kernel, fun h => (@echoReply_passes_iff 0xfff7 [0, 0, 0, 0]
    [⟨0, [8, 0, 0xf7, 0xff, 0, 0, 0, 0], by decide⟩] _ 0 (by omega) (by decide +kernel)
    (by decide +kernel) (by decide +kernel)).mp h ⟨rfl, by simp⟩⟩

end FanGateway.Lwip
