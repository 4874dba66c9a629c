import Mathlib.Data.UInt
import Mathlib.Tactic.Abel
import Mathlib.Tactic.SplitIfs

/-!
# Waiting times of the network stack

The stack counts milliseconds, the kernel counts ticks of five milliseconds. A
wait converts its limit to ticks, reads the tick counter before and after, and
converts the difference back. All of it is computed in 32 bits; the limit is cut
to 16 bits on its way to the kernel, which takes 32.
-/

namespace FanGateway.Port

/-- `OS_TICKS_PER_SEC`. -/
def osTicksPerSec : UInt32 := 200

/-- `SYS_ARCH_TIMEOUT`. -/
def sysArchTimeout : UInt32 := 0xFFFFFFFF

/-- `ucos_timeout`: a limit in milliseconds as ticks, at least one; 0 for no limit. -/
def ucosTimeout (timeout : UInt32) : UInt32 :=
  if timeout ≠ 0 then
    let ticks := timeout * osTicksPerSec / 1000
    if ticks < 1 then 1 else ticks
  else 0

/-- The time a fetch reports when the counter reads `t0` before and `t1` after it. -/
def mboxElapsed (t0 t1 : UInt32) : UInt32 :=
  let timeoutNew := if t1 > t0 then t1 - t0 else 0xFFFFFFFF - t0 + t1
  timeoutNew * 1000 / osTicksPerSec + 1

/-- The time a wait for a semaphore reports. -/
def semElapsed (t0 t1 : UInt32) : UInt32 :=
  let timeoutNew := if t1 ≥ t0 then t1 - t0 else 0xFFFFFFFF - t0 + t1
  timeoutNew * 1000 / osTicksPerSec + 1

/-- A wait: the limit passed to the kernel, the message and the value returned. -/
structure Wait (α : Type*) where
  ticks : UInt16
  msg : Option α
  result : UInt32

/-- `sys_arch_mbox_fetch`, by what `OSQPend` does with the limit: a message (the null message
among them) and the counter after it, or no message in time. -/
def sysArchMboxFetch {α : Type*} (osqPend : UInt16 → Option (Option α × UInt32))
    (timeout t0 : UInt32) : Wait α :=
  let ticks := (ucosTimeout timeout).toUInt16
  match osqPend ticks with
  | some (temp, t1) => ⟨ticks, temp, mboxElapsed t0 t1⟩
  | none => ⟨ticks, none, sysArchTimeout⟩

/-- `sys_arch_sem_wait`, by what `OSSemPend` does with the limit. No message comes with a
semaphore. -/
def sysArchSemWait (osSemPend : UInt16 → Option UInt32) (timeout t0 : UInt32) : Wait Empty :=
  let ticks := (ucosTimeout timeout).toUInt16
  match osSemPend ticks with
  | some t1 => ⟨ticks, none, semElapsed t0 t1⟩
  | none => ⟨ticks, none, sysArchTimeout⟩

/-! ## Reported times -/

/-- Both functions report, for a wait between two readings, one time, within the tick after
the five milliseconds of each tick passed, and no timeout. -/
def ReportsElapsed (t0 t1 : UInt32) : Prop :=
  ∀ (α : Type) (temp : Option α) (timeout : UInt32),
    let fetched := (sysArchMboxFetch (fun _ => some (temp, t1)) timeout t0).result
    let waited := (sysArchSemWait (fun _ => some t1) timeout t0).result
    fetched = waited ∧ 5 * (t1 - t0).toNat ≤ fetched.toNat ∧
      fetched.toNat ≤ 5 * (t1 - t0).toNat + 5 ∧ fetched ≠ sysArchTimeout

theorem reportsElapsed_def {t0 t1 : UInt32} : ReportsElapsed t0 t1 ↔
    mboxElapsed t0 t1 = semElapsed t0 t1 ∧ 5 * (t1 - t0).toNat ≤ (mboxElapsed t0 t1).toNat ∧
      (mboxElapsed t0 t1).toNat ≤ 5 * (t1 - t0).toNat + 5 ∧
      mboxElapsed t0 t1 ≠ sysArchTimeout :=
  ⟨fun h => h Unit none 0, fun h _ _ _ => h⟩

/-- A number of ticks that does not overflow, in milliseconds and one more. -/
theorem toNat_milliseconds {ticks : UInt32} (h : ticks.toNat ≤ 65535) :
    (ticks * 1000 / osTicksPerSec + 1).toNat = 5 * ticks.toNat + 1 := by
  have hthousand : (1000 : UInt32).toNat = 1000 := rfl
  have hticks : osTicksPerSec.toNat = 200 := rfl
  have hone : (1 : UInt32).toNat = 1 := rfl
  have hproduct : ticks.toNat * 1000 % 2 ^ 32 = ticks.toNat * 1000 := Nat.mod_eq_of_lt (by omega)
  have hquotient : ticks.toNat * 1000 / 200 = 5 * ticks.toNat := by omega
  rw [UInt32.toNat_add, UInt32.toNat_div, UInt32.toNat_mul, hthousand, hticks, hone, hproduct,
    hquotient, Nat.mod_eq_of_lt (by omega)]

section Readings

variable {t0 t1 : UInt32}

theorem mboxElapsed_of_lt (h : t0 < t1) :
    mboxElapsed t0 t1 = (t1 - t0) * 1000 / osTicksPerSec + 1 := by
  simp only [mboxElapsed, gt_iff_lt, if_pos h]

theorem semElapsed_of_le (h : t0 ≤ t1) :
    semElapsed t0 t1 = (t1 - t0) * 1000 / osTicksPerSec + 1 := by
  simp only [semElapsed, ge_iff_le, if_pos h]

/-- When the counter wraps, one tick is lost. -/
theorem mboxElapsed_of_wrap (h : t1 < t0) :
    mboxElapsed t0 t1 = (t1 - t0 - 1) * 1000 / osTicksPerSec + 1 := by
  have hticks : 0xFFFFFFFF - t0 + t1 = t1 - t0 - 1 := by
    rw [show (0xFFFFFFFF : UInt32) = -1 from rfl]
    abel
  have hnot : ¬ t0 < t1 := fun h' => absurd (UInt32.lt_trans h h') (UInt32.lt_irrefl _)
  simp only [mboxElapsed, gt_iff_lt, if_neg hnot, hticks]

/-- Without a tick in between, a fetch reports almost six hours. -/
theorem mboxElapsed_self : mboxElapsed t0 t0 = 21474832 := by
  have hticks : 0xFFFFFFFF - t0 + t0 = 0xFFFFFFFF := sub_add_cancel _ _
  simp only [mboxElapsed, gt_iff_lt, UInt32.lt_irrefl, if_false, hticks]
  decide

/-- **Reported times.** For waits of at most 65535 ticks the reported times are right exactly
when the counter reads more after the wait than before. -/
theorem reportsElapsed_iff (h : (t1 - t0).toNat ≤ 65535) : ReportsElapsed t0 t1 ↔ t0 < t1 := by
  have hbefore := t0.toNat_lt
  have hdifference : (t1 - t0).toNat = (2 ^ 32 - t0.toNat + t1.toNat) % 2 ^ 32 :=
    UInt32.toNat_sub t1 t0
  rw [reportsElapsed_def]
  rcases Nat.lt_trichotomy t0.toNat t1.toNat with hlt | heq | hgt
  · have hless : t0 < t1 := UInt32.lt_iff_toNat_lt.mpr hlt
    refine iff_of_true ?_ hless
    have hvalue := toNat_milliseconds h
    rw [mboxElapsed_of_lt hless, semElapsed_of_le (UInt32.le_of_lt hless)]
    refine ⟨rfl, by omega, by omega, fun htimeout => ?_⟩
    rw [htimeout] at hvalue
    have hmax : sysArchTimeout.toNat = 4294967295 := rfl
    omega
  · -- the two functions disagree
    obtain rfl := UInt32.toNat_inj.mp heq
    refine iff_of_false (fun hreports => ?_) (UInt32.lt_irrefl _)
    rw [mboxElapsed_self, semElapsed_of_le (UInt32.le_refl _), sub_self] at hreports
    exact absurd hreports.1 (by decide)
  · -- the time is one tick short
    have hwrap : t1 < t0 := UInt32.lt_iff_toNat_lt.mpr hgt
    refine iff_of_false (fun hreports => ?_) fun h' => UInt32.lt_irrefl _ (UInt32.lt_trans h' hwrap)
    have hshort : (t1 - t0 - 1).toNat = (t1 - t0).toNat - 1 := by
      have hone : (1 : UInt32).toNat = 1 := rfl
      rw [UInt32.toNat_sub, hone]
      omega
    have hvalue := toNat_milliseconds (by omega : (t1 - t0 - 1).toNat ≤ 65535)
    rw [mboxElapsed_of_wrap hwrap] at hreports
    omega

end Readings

/-- One tick, from 7 to 8. -/
theorem reportsElapsed_of_one_tick : ReportsElapsed 7 8 ∧ (8 - 7 : UInt32).toNat ≤ 65535 :=
  ⟨(reportsElapsed_iff (by decide)).mpr (by decide), by decide⟩

/-- A message that is already there is fetched within one tick, and almost six hours are
reported. -/
theorem immediate_fetch_not_reported : ¬ ReportsElapsed 7 7 := by
  rw [reportsElapsed_def]
  decide

/-! ## Limits -/

/-- A limit in milliseconds is passed on as a number of ticks that is not 0, not too short and
not below that of any shorter limit. -/
def Converts (passed : UInt32 → UInt16) (timeout : UInt32) : Prop :=
  passed timeout ≠ 0 ∧ timeout.toNat / 5 ≤ (passed timeout).toNat ∧
    ∀ shorter : UInt32, shorter ≠ 0 → shorter ≤ timeout → passed shorter ≤ passed timeout

/-- What either function passes to the kernel. -/
theorem ticks_sysArchMboxFetch {α : Type*} (osqPend : UInt16 → Option (Option α × UInt32))
    (timeout t0 : UInt32) :
    (sysArchMboxFetch osqPend timeout t0).ticks = (ucosTimeout timeout).toUInt16 := by
  rw [sysArchMboxFetch]
  split <;> rfl

theorem ticks_sysArchSemWait (osSemPend : UInt16 → Option UInt32) (timeout t0 : UInt32) :
    (sysArchSemWait osSemPend timeout t0).ticks = (ucosTimeout timeout).toUInt16 := by
  rw [sysArchSemWait]
  split <;> rfl

/-- Below 65536 ticks a limit is rounded down, but not to 0. -/
theorem toNat_ticks {timeout : UInt32} (hne : timeout ≠ 0) (hlt : timeout.toNat < 327680) :
    (ucosTimeout timeout).toUInt16.toNat = max 1 (timeout.toNat / 5) := by
  have hproduct : (timeout * osTicksPerSec / 1000).toNat = timeout.toNat / 5 := by
    rw [UInt32.toNat_div, UInt32.toNat_mul, show osTicksPerSec.toNat = 200 from rfl,
      show (1000 : UInt32).toNat = 1000 from rfl, Nat.mod_eq_of_lt (by omega)]
    omega
  have hone : (1 : UInt32).toNat = 1 := rfl
  simp only [ucosTimeout, if_pos hne]
  split_ifs with hsmall <;> rw [UInt32.lt_iff_toNat_lt, hproduct, hone] at hsmall
  · rw [UInt32.toNat_toUInt16, hone]
    omega
  · rw [UInt32.toNat_toUInt16, hproduct]
    omega

theorem converts_iff {timeout : UInt32} (hne : timeout ≠ 0) :
    Converts (fun t => (ucosTimeout t).toUInt16) timeout ↔ timeout < 327680 := by
  have hbound : (327680 : UInt32).toNat = 327680 := rfl
  rw [UInt32.lt_iff_toNat_lt, hbound]
  simp only [Converts]
  constructor
  · -- sixteen bits do not hold more
    rintro ⟨-, hlong, -⟩
    have hmax := (ucosTimeout timeout).toUInt16.toNat_lt
    omega
  · intro hlt
    have hticks := toNat_ticks hne hlt
    refine ⟨fun hzero => ?_, by omega, fun shorter hne' hle => ?_⟩
    · rw [hzero] at hticks
      have hnull : (0 : UInt16).toNat = 0 := rfl
      omega
    · rw [UInt32.le_iff_toNat_le] at hle
      rw [UInt16.le_iff_toNat_le, hticks, toNat_ticks hne' (by omega)]
      omega

/-- **Limits.** Whatever the kernel does with them, the limits both functions pass to it are
right exactly for fewer than 327680 milliseconds. -/
theorem limits_convert_iff {α : Type*} (osqPend : UInt16 → Option (Option α × UInt32))
    (osSemPend : UInt16 → Option UInt32) (t0 timeout : UInt32) (h : timeout ≠ 0) :
    (Converts (fun t => (sysArchMboxFetch osqPend t t0).ticks) timeout ↔ timeout < 327680) ∧
      (Converts (fun t => (sysArchSemWait osSemPend t t0).ticks) timeout ↔
        timeout < 327680) := by
  simp only [ticks_sysArchMboxFetch, ticks_sysArchSemWait]
  exact ⟨converts_iff h, converts_iff h⟩

/-- Half a second, for a kernel that times out. -/
theorem limits_convert_half_second :
    Converts (fun t => (sysArchMboxFetch (fun _ => (none : Option (Option Unit × UInt32))) t
      0).ticks) 500 :=
  (limits_convert_iff (fun _ => none) (fun _ => none) 0 500 (by decide)).1.mpr (by decide)

/-- A limit of 327680 milliseconds becomes no limit. -/
theorem long_limit_not_converted :
    (sysArchMboxFetch (fun _ => (none : Option (Option Unit × UInt32))) 327680 0).ticks = 0 ∧
      ¬ Converts (fun t => (sysArchMboxFetch (fun _ => (none : Option (Option Unit × UInt32))) t
        0).ticks) 327680 := by
  refine ⟨by decide, fun h => h.1 ?_⟩
  decide

end FanGateway.Port
