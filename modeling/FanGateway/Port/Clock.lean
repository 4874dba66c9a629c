import FanGateway.Port.Timeout

/-!
# The clock of the network stack

The stack asks for the milliseconds since the start. They are computed from the
tick counter in 32 bits, through a product two hundred times as large as the
result. The product overflows every 4294968 ticks, and the quotient of what is
left is not that of a longer product: the clock falls back to 1.

Timeouts and retransmissions look at differences of two readings only. Between
two ticks the difference is right exactly when the products have overflowed
equally often, up to multiples of 200 times.
-/

namespace FanGateway.Port

/-- `sys_now`: the ticks counted so far in milliseconds, and one more. -/
def sysNow (ucosTime : UInt32) : UInt32 := ucosTime * 1000 / osTicksPerSec + 1

/-- From tick `t` on, `d` ticks take the clock forward by five milliseconds each. -/
def Uniform (t : UInt32) (d : ℕ) : Prop :=
  sysNow (t + UInt32.ofNat d) - sysNow t = UInt32.ofNat (5 * d)

/-- How often the product for tick `t` overflows 32 bits. -/
def overflows (t : UInt32) : ℕ := t.toNat * 1000 / 2 ^ 32

theorem toNat_sysNow (t : UInt32) : (sysNow t).toNat = t.toNat * 1000 % 2 ^ 32 / 200 + 1 := by
  have hthousand : (1000 : UInt32).toNat = 1000 := rfl
  have hticks : osTicksPerSec.toNat = 200 := rfl
  have hone : (1 : UInt32).toNat = 1 := rfl
  have hlow : t.toNat * 1000 % 2 ^ 32 < 2 ^ 32 := Nat.mod_lt _ (by omega)
  rw [sysNow, UInt32.toNat_add, UInt32.toNat_div, UInt32.toNat_mul, hthousand, hticks, hone,
    Nat.mod_eq_of_lt (by omega)]

/-- What an overflow takes from the clock, up to multiples of `2 ^ 32` milliseconds. -/
def lost (t : UInt32) : ℕ := (2 ^ 32 * (overflows t % 200) + 199) / 200

/-- The clock is behind five milliseconds a tick by what the overflows took from it. -/
theorem sysNow_add_lost (t : UInt32) :
    (sysNow t).toNat + lost t + 2 ^ 32 * (overflows t / 200) = 5 * t.toNat + 1 := by
  have hsplit : 2 ^ 32 * overflows t + t.toNat * 1000 % 2 ^ 32 = t.toNat * 1000 :=
    Nat.div_add_mod _ _
  have hrounds := Nat.div_add_mod (overflows t) 200
  rw [toNat_sysNow, lost]
  generalize t.toNat * 1000 % 2 ^ 32 = low at hsplit ⊢
  omega

/-- Different numbers of overflows take different times. -/
theorem lost_inj {t u : UInt32} (h : lost t ≡ lost u [MOD 2 ^ 32]) :
    overflows t % 200 = overflows u % 200 := by
  have hlost (v : UInt32) : lost v < 2 ^ 32 := by
    have hround := Nat.mod_lt (overflows v) (by omega : 0 < 200)
    rw [lost]
    omega
  have heq : lost t = lost u := Nat.ModEq.eq_of_lt_of_lt h (hlost t) (hlost u)
  rw [lost, lost] at heq
  omega

/-- **The clock.** It advances by five milliseconds a tick exactly when the products of the two
readings have overflowed equally often, up to multiples of 200. -/
theorem uniform_iff (t : UInt32) (d : ℕ) :
    Uniform t d ↔ overflows (t + UInt32.ofNat d) % 200 = overflows t % 200 := by
  have hbefore := sysNow_add_lost t
  have hafter := sysNow_add_lost (t + UInt32.ofNat d)
  have htick : (t + UInt32.ofNat d).toNat = (t.toNat + d % 2 ^ 32) % 2 ^ 32 := by
    rw [UInt32.toNat_add, UInt32.toNat_ofNat']
  have hlt := (sysNow t).toNat_lt
  rw [Uniform, ← UInt32.toNat_inj, UInt32.toNat_sub, UInt32.toNat_ofNat']
  constructor
  · intro hdifference
    apply lost_inj
    rw [Nat.ModEq]
    omega
  · intro hoverflows
    have hlost : lost (t + UInt32.ofNat d) = lost t := by rw [lost, lost, hoverflows]
    omega

/-- After 4294967 ticks, almost six hours, the next one takes the clock back to 4. -/
theorem not_uniform_after_six_hours :
    sysNow 4294967 = 21474836 ∧ sysNow (4294967 + 1) = 4 ∧ ¬ Uniform 4294967 1 := by
  refine ⟨by decide, by decide, fun h => ?_⟩
  rw [Uniform] at h
  exact absurd h (by decide)

end FanGateway.Port
