import FanGateway.Lwip.Copies

/-!
# Copying one packet into another

`pbuf_copy` goes through two chains of buffers at once, and copies up to the next end of a buffer of
either. Between packets without empty buffers everything arrives. An empty buffer at the end makes a
packet look like the first of a queue, which is refused, though a part may have been copied.
-/

namespace FanGateway.Lwip

namespace Payloads

def errVal : ℤ := -6

/-- Whether `pbuf_copy` takes a chain for a queue of packets: the first buffer ends its packet, and
another follows. -/
def isQueue : Payloads → Bool
  | [] => false
  | d :: p => decide (d.length = totLen (d :: p) ∧ p ≠ [])

/-- The end of a round of `pbuf_copy`, before the next: a queue of packets is refused. -/
def goOn (next : Payloads → ℕ → Payloads → ℕ → Option (Payloads × ℤ)) (pTo : Payloads)
    (offsetTo : ℕ) (pFrom : Payloads) (offsetFrom : ℕ) : Option (Payloads × ℤ) :=
  if isQueue pFrom ∨ isQueue pTo then some (pTo, errVal)
  else if pFrom = [] then some (pTo, errOk)
  else next pTo offsetTo pFrom offsetFrom

/-- The loop of `pbuf_copy`, with what the target holds afterwards and the error. It does not go on
from a buffer that is not there. -/
def copyChains : ℕ → Payloads → ℕ → Payloads → ℕ → Option (Payloads × ℤ)
  | fuel + 1, d :: pTo, offsetTo, f :: pFrom, offsetFrom =>
    let len :=
      if d.length - offsetTo ≥ f.length - offsetFrom then f.length - offsetFrom
      else d.length - offsetTo
    let d' := d.take offsetTo ++ (f.drop offsetFrom).take len ++ d.drop (offsetTo + len)
    let next := if offsetFrom + len ≥ f.length then (pFrom, 0) else (f :: pFrom, offsetFrom + len)
    if offsetTo + len = d.length then
      if pTo = [] ∧ next.1 ≠ [] then some ([d'], errArg)
      else (goOn (copyChains fuel) pTo 0 next.1 next.2).map fun r => (d' :: r.1, r.2)
    else goOn (copyChains fuel) (d' :: pTo) (offsetTo + len) next.1 next.2
  | _, _, _, _, _ => none

/-- `pbuf_copy`, with what the target holds then and the error. -/
def pbufCopy (pTo pFrom : Payloads) : Option (Payloads × ℤ) :=
  if pTo ≠ [] ∧ pFrom ≠ [] ∧ totLen pTo ≥ totLen pFrom then
    copyChains (pTo.length + pFrom.length) pTo 0 pFrom 0
  else some (pTo, errArg)


variable {p pTo pFrom : Payloads} {b s t : List UInt8} {k fuel : ℕ}

/-- Bytes written over others from a position on. -/
def overwrite (b : List UInt8) (k : ℕ) (s : List UInt8) : List UInt8 :=
  b.take k ++ s ++ b.drop (k + s.length)

theorem overwrite_nil : overwrite b k [] = b := by
  rw [overwrite, List.append_nil, List.length_nil, Nat.add_zero, List.take_append_drop]

theorem length_overwrite (h : k + s.length ≤ b.length) : (overwrite b k s).length = b.length := by
  rw [overwrite, List.length_append, List.length_append, List.length_take, List.length_drop]
  omega

theorem overwrite_append_left (h : k + s.length ≤ b.length) :
    overwrite (b ++ t) k s = overwrite b k s ++ t := by
  rw [overwrite, overwrite, List.take_append_of_le_length (by omega),
    List.drop_append_of_le_length h, List.append_assoc, List.append_assoc, List.append_assoc]

theorem overwrite_append_right : overwrite (b ++ t) b.length s = b ++ overwrite t 0 s := by
  rw [overwrite, overwrite, List.take_left, List.drop_append, Nat.add_sub_cancel_left,
    List.drop_eq_nil_of_le (Nat.le_add_right _ _), List.nil_append, List.take_zero,
    List.nil_append, Nat.zero_add, List.append_assoc]

theorem overwrite_overwrite (h : k + s.length ≤ b.length) :
    overwrite (overwrite b k s) (k + s.length) t = overwrite b k (s ++ t) := by
  have hlength : (b.take k ++ s).length = k + s.length := by
    rw [List.length_append, List.length_take]
    omega
  rw [overwrite, overwrite, ← hlength, List.take_left, List.drop_append, Nat.add_sub_cancel_left,
    List.drop_eq_nil_of_le (Nat.le_add_right _ _), List.nil_append, List.drop_drop, overwrite,
    hlength, List.length_append, Nat.add_assoc, List.append_assoc (b.take k)]

/-- A copy that has succeeded. -/
def Copied (r : Option (Payloads × ℤ)) (pTo : Payloads) (k : ℕ) (s : List UInt8) : Prop :=
  ∃ q, r = some (q, errOk) ∧ q.flatten = overwrite pTo.flatten k s ∧
    q.map List.length = pTo.map List.length

variable {r : Option (Payloads × ℤ)} {d d' f : List UInt8} {offsetTo offsetFrom : ℕ}

/-- A buffer is written to, and the copy goes on in it. -/
theorem Copied.stay (hd : d' = overwrite d k s) (hk : k + s.length ≤ d.length)
    (h : Copied r (d' :: pTo) (k + s.length) t) : Copied r (d :: pTo) k (s ++ t) := by
  obtain ⟨q, hr, hflat, hsizes⟩ := h
  refine ⟨q, hr, ?_, ?_⟩
  · rw [hflat, List.flatten_cons, List.flatten_cons, hd, ← overwrite_append_left hk,
      overwrite_overwrite (by rw [List.length_append]; omega)]
  · rw [hsizes, List.map_cons, List.map_cons, hd, length_overwrite hk]

/-- A buffer is filled, and the copy goes on in the next. -/
theorem Copied.cons (hd : d' = overwrite d k s) (hk : k + s.length = d.length)
    (h : Copied r pTo 0 t) :
    Copied (r.map fun r => (d' :: r.1, r.2)) (d :: pTo) k (s ++ t) := by
  obtain ⟨q, rfl, hflat, hsizes⟩ := h
  have hlength : d'.length = d.length := by rw [hd, length_overwrite hk.le]
  refine ⟨d' :: q, rfl, ?_, ?_⟩
  · rw [List.flatten_cons, hflat, ← overwrite_append_right, hlength, hd,
      ← overwrite_append_left hk.le, ← hk, List.flatten_cons,
      overwrite_overwrite (by rw [List.length_append]; omega)]
  · rw [List.map_cons, List.map_cons, hsizes, hlength]

/-- A packet without empty buffers is not taken for a queue. -/
theorem isQueue_eq_false (h : ∀ x ∈ p, x ≠ []) (hlt : p.flatten.length < 2 ^ 16) :
    isQueue p = false := by
  match p with
  | [] => rfl
  | [d] => exact decide_eq_false fun hqueue => hqueue.2 rfl
  | d :: e :: p =>
    refine decide_eq_false fun hqueue => ?_
    have hne := List.length_pos_iff.mpr (h e (by simp))
    have heq := hqueue.1
    rw [totLen, Nat.mod_eq_of_lt hlt, List.flatten_cons, List.flatten_cons, List.length_append,
      List.length_append] at heq
    omega

/-! ## Rounds -/

/-- Two chains without empty buffers, of which the target has room for the source. -/
structure Ready (pTo : Payloads) (offsetTo : ℕ) (pFrom : Payloads) (offsetFrom : ℕ) : Prop where
  to_ne : ∀ x ∈ pTo, x ≠ []
  from_ne : ∀ x ∈ pFrom, x ≠ []
  to_lt : pTo.flatten.length < 2 ^ 16
  from_lt : pFrom.flatten.length < 2 ^ 16
  offset_lt : ∀ d ∈ pTo.head?, offsetTo < d.length
  offsetFrom_lt : ∀ f ∈ pFrom.head?, offsetFrom < f.length
  room : pFrom.flatten.length + offsetTo ≤ pTo.flatten.length + offsetFrom

/-- The first buffer is not empty. -/
theorem pos_of_mem_head (h : ∀ x ∈ p, x ≠ []) : ∀ x ∈ p.head?, 0 < x.length :=
  fun x hx => List.length_pos_iff.mpr (h x (List.mem_of_mem_head? hx))

theorem Ready.to_ne_nil (h : Ready pTo offsetTo pFrom offsetFrom) (hne : pFrom ≠ []) :
    pTo ≠ [] := by
  rintro rfl
  obtain ⟨f, pFrom, rfl⟩ := List.exists_cons_of_ne_nil hne
  have hlt := h.offsetFrom_lt f rfl
  have hroom := h.room
  rw [List.flatten_cons, List.length_append, List.flatten_nil, List.length_nil] at hroom
  omega

section Rounds

variable (h : Ready (d :: pTo) offsetTo (f :: pFrom) offsetFrom)

include h

theorem Ready.lengths : offsetTo < d.length ∧ offsetFrom < f.length ∧
    d.length + pTo.flatten.length < 2 ^ 16 ∧ f.length + pFrom.flatten.length < 2 ^ 16 ∧
      f.length + pFrom.flatten.length + offsetTo ≤
        d.length + pTo.flatten.length + offsetFrom := by
  have hto := h.to_lt
  have hfrom := h.from_lt
  have hroom := h.room
  rw [List.flatten_cons, List.length_append] at hto hfrom
  rw [List.flatten_cons, List.length_append, List.flatten_cons, List.length_append] at hroom
  exact ⟨h.offset_lt d rfl, h.offsetFrom_lt f rfl, hto, hfrom, hroom⟩

/-- Both buffers are done. -/
theorem Ready.both (hfull : offsetTo + (f.length - offsetFrom) = d.length) :
    Ready pTo 0 pFrom 0 := by
  obtain ⟨hot, hof, hto, hfrom, hroom⟩ := h.lengths
  have htoNe := (List.forall_mem_cons.mp h.to_ne).2
  have hfromNe := (List.forall_mem_cons.mp h.from_ne).2
  exact ⟨htoNe, hfromNe, by omega, by omega, pos_of_mem_head htoNe, pos_of_mem_head hfromNe,
    by omega⟩

/-- The source's buffer is done, and the target's has room left. -/
theorem Ready.source (hlt : offsetTo + (f.length - offsetFrom) < d.length)
    (hsame : d'.length = d.length) :
    Ready (d' :: pTo) (offsetTo + (f.length - offsetFrom)) pFrom 0 := by
  obtain ⟨hot, hof, hto, hfrom, hroom⟩ := h.lengths
  have hfromNe := (List.forall_mem_cons.mp h.from_ne).2
  refine ⟨List.forall_mem_cons.mpr ⟨?_, (List.forall_mem_cons.mp h.to_ne).2⟩, hfromNe, ?_,
    by omega, ?_, pos_of_mem_head hfromNe, ?_⟩
  · rw [← List.length_pos_iff, hsame]
    omega
  · rwa [List.flatten_cons, List.length_append, hsame]
  · intro x hx
    obtain rfl := Option.some.inj hx
    omega
  · rw [List.flatten_cons, List.length_append, hsame]
    omega

/-- The target's buffer is done, and the source's has bytes left. -/
theorem Ready.target (hlt : d.length - offsetTo < f.length - offsetFrom) :
    Ready pTo 0 (f :: pFrom) (offsetFrom + (d.length - offsetTo)) := by
  obtain ⟨hot, hof, hto, hfrom, hroom⟩ := h.lengths
  have htoNe := (List.forall_mem_cons.mp h.to_ne).2
  refine ⟨htoNe, h.from_ne, by omega, h.from_lt, pos_of_mem_head htoNe, ?_, ?_⟩
  · intro x hx
    obtain rfl := Option.some.inj hx
    omega
  · rw [List.flatten_cons, List.length_append]
    omega

end Rounds

theorem copied_goOn {next : Payloads → ℕ → Payloads → ℕ → Option (Payloads × ℤ)}
    (h : Ready pTo offsetTo pFrom offsetFrom)
    (hnext : pFrom ≠ [] →
      Copied (next pTo offsetTo pFrom offsetFrom) pTo offsetTo (pFrom.flatten.drop offsetFrom)) :
    Copied (goOn next pTo offsetTo pFrom offsetFrom) pTo offsetTo
      (pFrom.flatten.drop offsetFrom) := by
  have hto := isQueue_eq_false h.to_ne h.to_lt
  have hfrom := isQueue_eq_false h.from_ne h.from_lt
  rw [goOn, if_neg (by simp [hto, hfrom])]
  split_ifs with hend
  · exact ⟨pTo, rfl, by rw [hend, List.flatten_nil, List.drop_nil, overwrite_nil], rfl⟩
  · exact hnext hend

/-- The loop copies what is left of the source behind what it has copied. -/
theorem copied_copyChains (h : Ready pTo offsetTo pFrom offsetFrom) (hne : pFrom ≠ [])
    (hfuel : pTo.length + pFrom.length ≤ fuel) :
    Copied (copyChains fuel pTo offsetTo pFrom offsetFrom) pTo offsetTo
      (pFrom.flatten.drop offsetFrom) := by
  induction fuel generalizing pTo offsetTo pFrom offsetFrom with
  | zero =>
    have hlength := List.length_pos_iff.mpr hne
    omega
  | succ fuel ih =>
    obtain ⟨d, pTo, rfl⟩ := List.exists_cons_of_ne_nil (h.to_ne_nil hne)
    obtain ⟨f, pFrom, rfl⟩ := List.exists_cons_of_ne_nil hne
    obtain ⟨hot, hof, -⟩ := h.lengths
    simp only [List.length_cons] at hfuel
    rw [List.flatten_cons, List.drop_append_of_le_length hof.le]
    by_cases hfits : d.length - offsetTo ≥ f.length - offsetFrom
    · -- the rest of the source's buffer is copied
      have hdone : offsetFrom + (f.length - offsetFrom) ≥ f.length := by omega
      have hlength : (f.drop offsetFrom).length = f.length - offsetFrom := List.length_drop ..
      have htake : (f.drop offsetFrom).take (f.length - offsetFrom) = f.drop offsetFrom :=
        List.take_of_length_le hlength.le
      have hover : d.take offsetTo ++ f.drop offsetFrom ++
          d.drop (offsetTo + (f.length - offsetFrom)) =
            overwrite d offsetTo (f.drop offsetFrom) := by
        rw [overwrite, hlength]
      have hrest : pFrom.flatten = pFrom.flatten.drop 0 := (List.drop_zero ..).symm
      simp only [copyChains, if_pos hfits, if_pos hdone, htake, hover]
      rw [hrest]
      by_cases hfull : offsetTo + (f.length - offsetFrom) = d.length
      · have hready := h.both hfull
        rw [if_pos hfull, if_neg fun hlost => hready.to_ne_nil hlost.2 hlost.1]
        exact Copied.cons rfl (by omega)
          (copied_goOn hready fun hne' => ih hready hne' (by omega))
      · have hready := h.source (by omega)
          (@length_overwrite d (f.drop offsetFrom) offsetTo (by omega))
        rw [if_neg hfull]
        rw [← hlength] at hready ⊢
        refine Copied.stay rfl (by omega) (copied_goOn hready fun hne' => ih hready hne' ?_)
        rw [List.length_cons]
        omega
    · -- the target's buffer is filled, and the source's goes on in the next
      have hmore : ¬ offsetFrom + (d.length - offsetTo) ≥ f.length := by omega
      have hlength : ((f.drop offsetFrom).take (d.length - offsetTo)).length =
          d.length - offsetTo := by
        rw [List.length_take, List.length_drop]
        omega
      have hover : d.take offsetTo ++ (f.drop offsetFrom).take (d.length - offsetTo) ++
          d.drop (offsetTo + (d.length - offsetTo)) =
            overwrite d offsetTo ((f.drop offsetFrom).take (d.length - offsetTo)) := by
        rw [overwrite, hlength]
      have hsplit : f.drop offsetFrom ++ pFrom.flatten =
          (f.drop offsetFrom).take (d.length - offsetTo) ++
            (f :: pFrom).flatten.drop (offsetFrom + (d.length - offsetTo)) := by
        rw [List.flatten_cons, List.drop_append_of_le_length (by omega), ← List.append_assoc,
          ← List.drop_drop, List.take_append_drop]
      have hready := h.target (by omega)
      simp only [copyChains, if_neg hfits, if_neg hmore, hover]
      rw [if_pos (show offsetTo + (d.length - offsetTo) = d.length by omega),
        if_neg fun hlost => hready.to_ne_nil hlost.2 hlost.1, hsplit]
      refine Copied.cons rfl (by omega) (copied_goOn hready fun hne' => ih hready hne' ?_)
      rw [List.length_cons]
      omega

/-- **Whole copies.** Between packets without empty buffers `pbuf_copy` copies everything, however
the two are cut, if there is room, and otherwise nothing. -/
theorem pbufCopy_copies (hto : ∀ x ∈ pTo, x ≠ []) (hfrom : ∀ x ∈ pFrom, x ≠ [])
    (htoLt : pTo.flatten.length < 2 ^ 16) (hfromLt : pFrom.flatten.length < 2 ^ 16)
    (hne : pFrom ≠ []) :
    (pFrom.flatten.length ≤ pTo.flatten.length → ∃ q, pbufCopy pTo pFrom = some (q, errOk) ∧
      q.map List.length = pTo.map List.length ∧
      q.flatten = pFrom.flatten ++ pTo.flatten.drop pFrom.flatten.length) ∧
    (pTo.flatten.length < pFrom.flatten.length → pbufCopy pTo pFrom = some (pTo, errArg)) := by
  rw [pbufCopy, totLen, totLen, Nat.mod_eq_of_lt htoLt, Nat.mod_eq_of_lt hfromLt]
  refine ⟨fun hle => ?_, fun hlt => if_neg fun hroom => absurd hroom.2.2 (Nat.not_le.mpr hlt)⟩
  have hready : Ready pTo 0 pFrom 0 :=
    ⟨hto, hfrom, htoLt, hfromLt, pos_of_mem_head hto, pos_of_mem_head hfrom, by omega⟩
  rw [if_pos ⟨hready.to_ne_nil hne, hne, hle⟩]
  obtain ⟨q, heq, hflat, hsizes⟩ := copied_copyChains hready hne le_rfl
  refine ⟨q, heq, hsizes, ?_⟩
  rw [hflat, List.drop_zero, overwrite, List.take_zero, List.nil_append, Nat.zero_add]

theorem pbufCopy_copies_split :
    ∃ q, pbufCopy [[1, 2], [3, 4, 5], [6]] [[7], [8, 9, 10]] = some (q, errOk) ∧
      q.flatten = [7, 8, 9, 10, 5, 6] := by
  obtain ⟨q, heq, -, hflat⟩ := (@pbufCopy_copies [[1, 2], [3, 4, 5], [6]] [[7], [8, 9, 10]]
    (by decide) (by decide) (by decide) (by decide) (by decide)).1 (by decide)
  exact ⟨q, heq, hflat⟩

/-- A target that ends in an empty buffer is taken for a queue, after a part has been copied. -/
example : pbufCopy [[1, 2], [3, 4, 5], []] [[7], [8, 9, 10]] =
    some ([[7, 8], [3, 4, 5], []], errVal) := by
  decide +kernel

end Payloads

end FanGateway.Lwip
