import FanGateway.Lwip.Pbuf

/-!
# Searching a packet

`pbuf_memfind` compares the bytes of a packet with those it looks for, position by position. Behind
a byte that differs it goes on, and so passes over the positions between. A packet that holds the
bytes is then taken for one that does not, unless they are all the same.
-/

namespace FanGateway.Lwip

/-- The payloads of the buffers of a packet, from the first on. -/
abbrev Payloads := List (List UInt8)

namespace Payloads

def totLen (p : Payloads) : ℕ := p.flatten.length % 2 ^ 16

/-- The loop of `pbuf_get_at` and `pbuf_memcmp`, which looks for the buffer of a position. -/
def bufferAt : Payloads → ℕ → Option (Payloads × ℕ)
  | [], _ => none
  | d :: q, start =>
    if d.length ≤ start then bufferAt q (start - d.length) else some (d :: q, start)

/-- `pbuf_get_at`. -/
def pbufGetAt (p : Payloads) (offset : ℕ) : UInt8 :=
  match bufferAt p offset with
  | some (d :: _, copyFrom) => d.getD copyFrom 0
  | _ => 0

/-- The loop of `pbuf_memcmp`. -/
def memcmpLoop (q : Payloads) (start : ℕ) : ℕ → List UInt8 → ℕ
  | _, [] => 0
  | i, b :: s2 =>
    if pbufGetAt q ((start + i) % 2 ^ 16) ≠ b then (i + 1) % 2 ^ 16
    else memcmpLoop q start (i + 1) s2

/-- `pbuf_memcmp`, with all bytes of `s2`. -/
def pbufMemcmp (p : Payloads) (offset : ℕ) (s2 : List UInt8) : ℕ :=
  match bufferAt p offset with
  | some (q, start) => memcmpLoop q start 0 s2
  | none => 0xffff

/-- The loop of `pbuf_memfind`. -/
def memfindLoop (p : Payloads) (mem : List UInt8) (max : ℕ) : ℕ → ℕ → Option ℕ
  | 0, _ => none
  | fuel + 1, i =>
    if i ≤ max then
      let plus := pbufMemcmp p i mem
      if plus = 0 then some i else memfindLoop p mem max fuel ((i + plus) % 2 ^ 16)
    else some 0xffff

/-- `pbuf_memfind`, with all bytes of `mem`. -/
def pbufMemfind (p : Payloads) (mem : List UInt8) (startOffset : ℕ) : Option ℕ :=
  let max := (p.totLen + 2 ^ 16 - mem.length) % 2 ^ 16
  if p.totLen ≥ mem.length + startOffset then memfindLoop p mem max (2 ^ 16 + 1) startOffset
  else some 0xffff

variable {p q : Payloads} {mem s2 : List UInt8} {c : UInt8} {fuel i k max n offset r start : ℕ}

/-! ## Bytes -/

/-- The buffer of a position, if there is one, holds what the packet holds from there on. -/
theorem bufferAt_cases (p : Payloads) (offset : ℕ) :
    (bufferAt p offset = none ∧ p.flatten.length ≤ offset) ∨
      ∃ d q start, bufferAt p offset = some (d :: q, start) ∧ start < d.length ∧
        start ≤ offset ∧ p.flatten.drop offset = (d :: q).flatten.drop start := by
  induction p generalizing offset with
  | nil => exact .inl ⟨rfl, Nat.zero_le _⟩
  | cons d p ih =>
    rw [bufferAt, List.flatten_cons, List.length_append]
    by_cases hle : d.length ≤ offset
    · rw [if_pos hle]
      rcases ih (offset - d.length) with ⟨heq, hend⟩ | ⟨e, q, start, heq, hlt, hstart, hdrop⟩
      · exact .inl ⟨heq, by omega⟩
      · refine .inr ⟨e, q, start, heq, hlt, by omega, ?_⟩
        rw [List.drop_append, List.drop_eq_nil_of_le hle, List.nil_append, hdrop]
    · rw [if_neg hle]
      exact .inr ⟨d, p, offset, rfl, by omega, le_rfl, by rw [List.flatten_cons]⟩

theorem pbufGetAt_eq : pbufGetAt p offset = p.flatten[offset]?.getD 0 := by
  rw [pbufGetAt]
  rcases bufferAt_cases p offset with ⟨heq, hend⟩ | ⟨d, q, start, heq, hlt, -, hdrop⟩
  · rw [heq, List.getElem?_eq_none hend, Option.getD_none]
  · have hget := congrArg (fun l : List UInt8 => l[0]?) hdrop
    simp only [List.getElem?_drop, Nat.add_zero, List.flatten_cons] at hget
    rw [heq, hget, List.getElem?_append_left hlt]
    exact List.getD_eq_getElem?_getD

/-! ## Comparing -/

/-- A comparison ends behind the first byte that differs. -/
theorem memcmpLoop_cases (hend : start + i + s2.length ≤ q.flatten.length)
    (hlt : q.flatten.length < 2 ^ 16) :
    (memcmpLoop q start i s2 = 0 ∧ s2 <+: q.flatten.drop (start + i)) ∨
      ∃ m < s2.length, memcmpLoop q start i s2 = i + m + 1 ∧
        q.flatten[start + i + m]? ≠ s2[m]? := by
  induction s2 generalizing i with
  | nil => exact .inl ⟨rfl, List.nil_prefix⟩
  | cons b s2 ih =>
    rw [List.length_cons] at hend
    have hi : start + i < q.flatten.length := by omega
    rw [memcmpLoop, Nat.mod_eq_of_lt (by omega), pbufGetAt_eq, List.getElem?_eq_getElem hi,
      Option.getD_some]
    by_cases hb : q.flatten[start + i] = b
    · rw [if_neg (not_not.mpr hb)]
      rcases @ih (i + 1) (by omega) with ⟨heq, hprefix⟩ | ⟨m, hm, heq, hne⟩
      · refine .inl ⟨heq, ?_⟩
        rw [List.drop_eq_getElem_cons hi, List.cons_prefix_cons]
        exact ⟨hb.symm, hprefix⟩
      · refine .inr ⟨m + 1, by rw [List.length_cons]; omega, by omega, ?_⟩
        rwa [List.getElem?_cons_succ, show start + i + (m + 1) = start + (i + 1) + m by omega]
    · rw [if_pos hb, Nat.mod_eq_of_lt (by omega)]
      refine .inr ⟨0, by rw [List.length_cons]; omega, rfl, ?_⟩
      rw [Nat.add_zero, List.getElem?_eq_getElem hi, List.getElem?_cons_zero]
      exact fun heq => hb (Option.some.inj heq)

theorem pbufMemcmp_cases (hpos : 0 < s2.length) (hend : offset + s2.length ≤ p.flatten.length)
    (hlt : p.flatten.length < 2 ^ 16) :
    (pbufMemcmp p offset s2 = 0 ∧ s2 <+: p.flatten.drop offset) ∨
      ∃ m < s2.length, pbufMemcmp p offset s2 = m + 1 ∧ p.flatten[offset + m]? ≠ s2[m]? := by
  rw [pbufMemcmp]
  rcases bufferAt_cases p offset with ⟨-, hshort⟩ | ⟨d, q, start, heq, hstart, hle, hdrop⟩
  · omega
  · have hlength := congrArg List.length hdrop
    rw [List.length_drop, List.length_drop] at hlength
    have hq : start < (d :: q).flatten.length := by
      rw [List.flatten_cons, List.length_append]
      omega
    rw [heq, hdrop]
    rcases @memcmpLoop_cases (d :: q) s2 0 start (by omega) (by omega) with
      ⟨hzero, hprefix⟩ | ⟨m, hm, hplus, hne⟩
    · exact .inl ⟨hzero, hprefix⟩
    · refine .inr ⟨m, hm, hplus.trans (by omega), ?_⟩
      rwa [← List.getElem?_drop, hdrop, List.getElem?_drop]

/-! ## Searching -/

theorem memfindLoop_of_lt (hi : max < i) (hfuel : 0 < fuel) :
    memfindLoop p mem max fuel i = some 0xffff := by
  obtain ⟨fuel, rfl⟩ := Nat.exists_eq_succ_of_ne_zero hfuel.ne'
  exact if_neg (Nat.not_le.mpr hi)

section Search

variable (hpos : 0 < mem.length) (hmax : max + mem.length = p.flatten.length)
  (hlt : p.flatten.length ≤ 0xfffe)

include hpos hmax hlt

/-- The search ends, and what it finds is there. -/
theorem memfindLoop_sound (hfuel : max + 1 - i < fuel) :
    ∃ k, memfindLoop p mem max fuel i = some k ∧
      (k ≠ 0xffff → i ≤ k ∧ mem <+: p.flatten.drop k) := by
  induction fuel generalizing i with
  | zero => exact absurd hfuel (Nat.not_lt_zero _)
  | succ fuel ih =>
    rw [memfindLoop]
    by_cases hi : i ≤ max
    · rw [if_pos hi]
      rcases @pbufMemcmp_cases p mem i hpos (by omega) (by omega) with
        ⟨hzero, hprefix⟩ | ⟨m, hm, hplus, -⟩
      · exact ⟨i, if_pos hzero, fun _ => ⟨le_rfl, hprefix⟩⟩
      · obtain ⟨k, hk, hsound⟩ := @ih (i + (m + 1)) (by omega)
        rw [hplus, if_neg (Nat.succ_ne_zero m), Nat.mod_eq_of_lt (by omega)]
        refine ⟨k, hk, fun hne => ?_⟩
        obtain ⟨hle, hprefix⟩ := hsound hne
        exact ⟨by omega, hprefix⟩
    · exact ⟨_, if_neg hi, fun hne => absurd rfl hne⟩

/-- Where all bytes are the same, none of the positions passed over is the first of them. -/
theorem memfindLoop_first (hall : ∀ b ∈ mem, b = c) (hr : mem <+: p.flatten.drop r)
    (hi : i ≤ r) (hfuel : max + 1 - i < fuel) :
    ∃ k ≤ r, memfindLoop p mem max fuel i = some k := by
  have hlength := hr.length_le
  rw [List.length_drop] at hlength
  have hbyte {j : ℕ} (hj : j < mem.length) : mem[j]? = some c := by
    rw [List.getElem?_eq_getElem hj, hall _ (List.getElem_mem hj)]
  induction fuel generalizing i with
  | zero => exact absurd hfuel (Nat.not_lt_zero _)
  | succ fuel ih =>
    rw [memfindLoop, if_pos (show i ≤ max by omega)]
    rcases @pbufMemcmp_cases p mem i hpos (by omega) (by omega) with
      ⟨hzero, -⟩ | ⟨m, hm, hplus, hne⟩
    · exact ⟨i, hi, if_pos hzero⟩
    · rw [hplus, if_neg (Nat.succ_ne_zero m), Nat.mod_eq_of_lt (by omega)]
      -- the byte that differs is not one of those looked for, which begin behind it
      have hbehind : i + m < r := by
        by_contra hle
        have hsame := List.prefix_iff_getElem?.mp hr (i + m - r) (by omega)
        rw [List.getElem?_drop, show r + (i + m - r) = i + m by omega,
          ← List.getElem?_eq_getElem, hbyte (by omega)] at hsame
        exact hne (hsame.trans (hbyte hm).symm)
      exact ih (by omega) (by omega)

end Search

/-- Bytes that begin again behind the first of them are all the same. -/
theorem eq_of_prefix_cons (h : mem <+: c :: mem) : ∀ b ∈ mem, b = c := by
  induction mem with
  | nil => exact fun b hb => absurd hb List.not_mem_nil
  | cons a mem ih =>
    obtain ⟨rfl, hrest⟩ := List.cons_prefix_cons.mp h
    intro b hb
    rcases List.mem_cons.mp hb with rfl | hb
    · rfl
    · exact ih hrest b hb

/-- With the first of the bytes once more in front of them, they are found only if a comparison
with one another finds no difference. -/
theorem eq_head_of_found (hpos : mem ≠ []) (hle : mem.length ≤ 0xfffd) (hk : k ≤ 1)
    (hfound : pbufMemfind [mem.head hpos :: mem] mem 0 = some k) :
    ∀ b ∈ mem, b = mem.head hpos := by
  have hlength : 0 < mem.length := List.length_pos_iff.mpr hpos
  have hflat : List.flatten [mem.head hpos :: mem] = mem.head hpos :: mem := List.flatten_singleton
  have htotal : (List.flatten [mem.head hpos :: mem]).length = mem.length + 1 := by
    rw [hflat, List.length_cons]
  rw [pbufMemfind, totLen, htotal, Nat.mod_eq_of_lt (by omega), if_pos (by omega),
    show (mem.length + 1 + 2 ^ 16 - mem.length) % 2 ^ 16 = 1 by omega, memfindLoop,
    if_pos (Nat.zero_le 1)] at hfound
  rcases @pbufMemcmp_cases [mem.head hpos :: mem] mem 0 hlength (by omega) (by omega) with
    ⟨-, hprefix⟩ | ⟨m, hm, hplus, hne⟩
  · rw [List.drop_zero, hflat] at hprefix
    exact eq_of_prefix_cons hprefix
  · -- the first bytes agree, so that the search goes on behind the second position
    have hm' : m ≠ 0 := by
      rintro rfl
      rw [hflat, List.getElem?_cons_zero, ← List.head?_eq_getElem?,
        List.head?_eq_some_head hpos] at hne
      exact hne rfl
    rw [hplus, if_neg (Nat.succ_ne_zero m), memfindLoop_of_lt (by omega) (by omega)] at hfound
    have hlast := Option.some.inj hfound
    omega

/-- **Overlooked bytes.** Looking for 1 to 0xfffd bytes `pbuf_memfind` ends in every packet of at
most 0xfffe bytes, and what it finds is there. It finds the first place of the bytes in every such
packet that holds them if and only if they are all the same. -/
theorem pbufMemfind_finds_iff (hpos : mem ≠ []) (hle : mem.length ≤ 0xfffd) :
    (∀ p start, p.flatten.length ≤ 0xfffe → ∃ k, pbufMemfind p mem start = some k ∧
      (k ≠ 0xffff → start ≤ k ∧ mem <+: p.flatten.drop k)) ∧
    ((∀ p start r, p.flatten.length ≤ 0xfffe → start ≤ r → mem <+: p.flatten.drop r →
        ∃ k ≤ r, pbufMemfind p mem start = some k) ↔
      ∀ b ∈ mem, b = mem.head hpos) := by
  have hlength : 0 < mem.length := List.length_pos_iff.mpr hpos
  refine ⟨fun p start hp => ?_, fun hfinds => ?_, fun hall p start r hp hstart hr => ?_⟩
  · rw [pbufMemfind, totLen, Nat.mod_eq_of_lt (by omega)]
    split_ifs with hroom
    · exact memfindLoop_sound hlength (by omega) hp (by omega)
    · exact ⟨_, rfl, fun hne => absurd rfl hne⟩
  · have htotal : (List.flatten [mem.head hpos :: mem]).length = mem.length + 1 := by
      rw [List.flatten_singleton, List.length_cons]
    obtain ⟨k, hk, hfound⟩ := hfinds [mem.head hpos :: mem] 0 1 (by omega) (by omega)
      (by rw [List.flatten_singleton]; exact List.prefix_rfl)
    exact eq_head_of_found hpos hle hk hfound
  · have hroom := hr.length_le
    rw [List.length_drop] at hroom
    rw [pbufMemfind, totLen, Nat.mod_eq_of_lt (by omega), if_pos (by omega)]
    exact memfindLoop_first hlength (by omega) hp hall hr hstart (by omega)

/-- In `aab` the search does not find `ab`. -/
theorem pbufMemfind_finds_iff_ab :
    pbufMemfind [[97, 97], [98]] [97, 98] 0 = some 0xffff ∧
      ¬ ∀ p start r, p.flatten.length ≤ 0xfffe → start ≤ r →
        [97, 98] <+: List.drop r (List.flatten p) →
          ∃ k ≤ r, pbufMemfind p [97, 98] start = some k := by
  have hne : ([97, 98] : List UInt8) ≠ [] := List.cons_ne_nil _ _
  refine ⟨by decide +kernel, fun hfinds => ?_⟩
  have hsame : (98 : UInt8) = 97 :=
    (pbufMemfind_finds_iff hne (by decide)).2.mp hfinds 98 (by decide)
  exact absurd hsame (by decide)

end Payloads

end FanGateway.Lwip
