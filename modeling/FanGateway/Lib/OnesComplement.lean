import Mathlib.Data.Nat.ModEq
import Mathlib.Data.Nat.Bits
import Mathlib.Tactic.Ring
import Mathlib.Tactic.SplitIfs

/-!
# Sums with end-around carry

Adding words of a fixed width and adding the carries in again counts modulo the largest
word, with two words for zero: the sum is zero only if every summand is, and otherwise the
largest word stands for a multiple of it. So the value of a sum is known from its residue
and from whether it is zero.

A list of digits is weighed with alternating weights, one and the base. As the square of the
base is one modulo the largest word of two digits, exchanging the two weights is
multiplication by the base.
-/

namespace Lib

variable {m a b n k : ℕ}

/-! ## End-around carry -/

/-- What is left of a sum when all carries out of words up to `m` are added in again. -/
def endAround (m n : ℕ) : ℕ := if n = 0 then 0 else (n - 1) % m + 1

@[simp] theorem endAround_zero : endAround m 0 = 0 := rfl

theorem endAround_eq_zero_iff : endAround m n = 0 ↔ n = 0 := by
  rw [endAround]
  split_ifs with h <;> simp [h]

theorem endAround_le (hm : 0 < m) : endAround m n ≤ m := by
  rw [endAround]
  split_ifs
  · exact Nat.zero_le m
  · exact Nat.mod_lt _ hm

theorem endAround_of_le (h : n ≤ m) : endAround m n = n := by
  rw [endAround]
  split_ifs with hzero
  · exact hzero.symm
  · rw [Nat.mod_eq_of_lt (by omega)]
    omega

theorem endAround_modEq : endAround m n ≡ n [MOD m] := by
  rw [endAround]
  split_ifs with hzero
  · rw [hzero]
  · have h : (n - 1) % m + 1 ≡ n - 1 + 1 [MOD m] := (Nat.mod_modEq _ _).add_right 1
    rwa [Nat.sub_add_cancel (Nat.pos_of_ne_zero hzero)] at h

/-- The value depends on the residue, and on whether the sum is zero. -/
theorem endAround_congr (h : a ≡ b [MOD m]) (hzero : a = 0 ↔ b = 0) :
    endAround m a = endAround m b := by
  rw [endAround, endAround]
  by_cases ha : a = 0
  · rw [if_pos ha, if_pos (hzero.mp ha)]
  · have hb : b ≠ 0 := fun hb => ha (hzero.mpr hb)
    have h' : a - 1 + 1 ≡ b - 1 + 1 [MOD m] := by
      rwa [Nat.sub_add_cancel (Nat.pos_of_ne_zero ha), Nat.sub_add_cancel (Nat.pos_of_ne_zero hb)]
    rw [if_neg ha, if_neg hb, Nat.ModEq.add_right_cancel' 1 h']

theorem endAround_add_left : endAround m (endAround m a + b) = endAround m (a + b) := by
  refine endAround_congr (endAround_modEq.add_right b) ?_
  rw [Nat.add_eq_zero_iff, Nat.add_eq_zero_iff, endAround_eq_zero_iff]

theorem endAround_add_right : endAround m (a + endAround m b) = endAround m (a + b) := by
  rw [Nat.add_comm, endAround_add_left, Nat.add_comm]

theorem endAround_mul : endAround m (k * endAround m a) = endAround m (k * a) := by
  refine endAround_congr (endAround_modEq.mul_left k) ?_
  rw [Nat.mul_eq_zero, Nat.mul_eq_zero, endAround_eq_zero_iff]

/-- Adding the upper words to the lowest one. -/
theorem endAround_fold : endAround m (n / (m + 1) + n % (m + 1)) = endAround m n := by
  have hn := Nat.div_add_mod n (m + 1)
  refine endAround_congr ?_ ?_
  · have h : (m + 1) * (n / (m + 1)) + n % (m + 1) ≡ 1 * (n / (m + 1)) + n % (m + 1) [MOD m] :=
      ((Nat.add_modEq_left (n := m) (a := 1)).mul_right _).add_right _
    rw [hn, Nat.one_mul] at h
    exact h.symm
  · constructor
    · intro hzero
      rw [Nat.add_eq_zero_iff] at hzero
      rw [← hn, hzero.1, hzero.2, Nat.mul_zero]
    · rintro rfl
      simp

theorem endAround_eq_self_iff (hm : 0 < m) : endAround m n = m ↔ n ≠ 0 ∧ m ∣ n := by
  constructor
  · intro h
    refine ⟨fun hzero => ?_, ?_⟩
    · rw [hzero, endAround_zero] at h
      exact hm.ne h
    · have hmod := endAround_modEq (m := m) (n := n)
      rw [h] at hmod
      exact (Nat.modEq_zero_iff_dvd.mp (hmod.symm.trans (Nat.modEq_zero_iff_dvd.mpr dvd_rfl)))
  · rintro ⟨hne, hdvd⟩
    have h : endAround m n = endAround m m := by
      refine endAround_congr ?_ (iff_of_false hne hm.ne')
      exact (Nat.modEq_zero_iff_dvd.mpr hdvd).trans (Nat.modEq_zero_iff_dvd.mpr dvd_rfl).symm
    rw [h, endAround_of_le le_rfl]

/-- The complement of a sum brings it to the largest word. -/
theorem endAround_add_compl (hm : 0 < m) : endAround m (n + (m - endAround m n)) = m := by
  rw [← endAround_add_left, Nat.add_sub_cancel' (endAround_le hm), endAround_of_le le_rfl]

/-! ## Alternating weights -/

/-- The sum of digits whose weights are one and `b` in turn; the first one has the weight `b`
if `high`. -/
def weigh (b : ℕ) : Bool → List ℕ → ℕ
  | _, [] => 0
  | false, x :: xs => x + weigh b true xs
  | true, x :: xs => b * x + weigh b false xs

variable {high : Bool} {xs ys : List ℕ}

@[simp] theorem weigh_nil : weigh b high [] = 0 := by cases high <;> rfl

@[simp] theorem weigh_false_cons {x : ℕ} : weigh b false (x :: xs) = x + weigh b true xs := rfl

@[simp] theorem weigh_true_cons {x : ℕ} : weigh b true (x :: xs) = b * x + weigh b false xs := rfl

theorem weigh_append :
    weigh b high (xs ++ ys) = weigh b high xs + weigh b (high ^^ xs.length.bodd) ys := by
  induction xs generalizing high with
  | nil => simp
  | cons x xs ih =>
    cases high with
    | false => simp [ih, Nat.add_assoc]
    | true => simp [ih, Nat.add_assoc]

theorem weigh_eq_zero_iff (hb : b ≠ 0) : weigh b high xs = 0 ↔ ∀ x ∈ xs, x = 0 := by
  induction xs generalizing high with
  | nil => simp
  | cons x xs ih => cases high <;> simp [ih, hb]

/-- Exchanging the weights is multiplication by the base. -/
theorem mul_weigh_modEq (hb : b ≠ 0) :
    b * weigh b high xs ≡ weigh b (!high) xs [MOD b ^ 2 - 1] := by
  have hsquare : b * b ≡ 1 [MOD b ^ 2 - 1] := by
    have hpos : 1 ≤ b ^ 2 := Nat.one_le_pow _ _ (Nat.pos_of_ne_zero hb)
    have h : b ^ 2 - 1 + 1 ≡ 0 + 1 [MOD b ^ 2 - 1] :=
      (Nat.modEq_zero_iff_dvd.mpr dvd_rfl).add_right 1
    rw [Nat.sub_add_cancel hpos, Nat.zero_add] at h
    rwa [← Nat.pow_two]
  induction xs generalizing high with
  | nil => simp [Nat.ModEq]
  | cons x xs ih =>
    cases high with
    | false =>
      rw [weigh_false_cons, Nat.mul_add]
      exact (@ih true).add_left _
    | true =>
      have h := (hsquare.mul_right x).add (@ih false)
      rw [Nat.one_mul] at h
      rw [weigh_true_cons, Nat.mul_add, ← Nat.mul_assoc]
      exact h

theorem endAround_mul_weigh (hb : b ≠ 0) :
    endAround (b ^ 2 - 1) (b * weigh b high xs) = endAround (b ^ 2 - 1) (weigh b (!high) xs) := by
  refine endAround_congr (mul_weigh_modEq hb) ?_
  rw [Nat.mul_eq_zero, or_iff_right hb, weigh_eq_zero_iff hb, weigh_eq_zero_iff hb]

/-- Two digits of every pair are at most the largest word. -/
theorem weigh_false_le {c : ℕ} : ∀ {xs : List ℕ}, (∀ x ∈ xs, x ≤ c) →
    weigh b false xs ≤ (c + b * c) * ((xs.length + 1) / 2)
  | [], _ => by simp
  | [x], hxs => by
    have hx : x ≤ c := hxs x (by simp)
    simp only [weigh_false_cons, weigh_nil, List.length_singleton]
    omega
  | x :: y :: xs, hxs => by
    have hx : x ≤ c := hxs x (by simp)
    have hy : b * y ≤ b * c := Nat.mul_le_mul_left b (hxs y (by simp))
    have hbehind : ∀ z ∈ xs, z ≤ c := fun z hz => hxs z (by simp [hz])
    have hrest := weigh_false_le hbehind
    have hlen : ((x :: y :: xs).length + 1) / 2 = (xs.length + 1) / 2 + 1 := by
      simp only [List.length_cons]
      omega
    rw [weigh_false_cons, weigh_true_cons, hlen, Nat.mul_add_one]
    omega

end Lib
