import FanGateway.Lib.DeltaList
import FanGateway.Lib.Machine
import Mathlib.Tactic.Ring

/-!
# The timers of the network stack

The timers hang in one list; each holds the time from the one before it. The thread of the stack
waits for a message no longer than the first timer allows. If the wait times out, the first timer
is taken off and its function called; if a message comes, the time waited is taken off the first
timer. Setting a timer walks along the list with what is left of its time, and taking one out adds
its time to the next. The times are 32-bit differences and sums.

Beside the list stand the time the stack has counted, what it has not (a message may come later
than the first timer was due), and which timers were set, called and taken out.
-/

namespace FanGateway.Lwip

open Lib (absolute deltaInsert deltaErase dueInsert Before)

/-- Who is called: a function, its argument, and the number of the timer among all those set. -/
structure Callback where
  h : ℕ
  arg : ℕ
  no : ℕ
  deriving DecidableEq, Repr

/-- `struct sys_timeo`: the time from the timer before it, and who is called. -/
abbrev SysTimeo := ℕ × Callback

/-- `MEMP_NUM_SYS_TIMEOUT`. -/
def mempNumSysTimeout : ℕ := 8

/-- Addition and subtraction of `u32_t`. -/
def addU32 (a b : ℕ) : ℕ := (a + b) % 2 ^ 32
def subU32 (a b : ℕ) : ℕ := (a + 2 ^ 32 - b) % 2 ^ 32

/-! ## The functions on the list -/

/-- The loop of `sys_timeout`, at a timer that is due no later. -/
def sysTimeoutLoop (time : ℕ) (c : Callback) : List SysTimeo → List SysTimeo
  | [] => []
  | t :: rest =>
    let left := subU32 time t.1
    match rest with
    | [] => [t, (left, c)]
    | next :: more =>
      if next.1 > left then t :: (left, c) :: (subU32 next.1 left, next.2) :: more
      else t :: sysTimeoutLoop left c (next :: more)

/-- `sys_timeout`, on the list, with the timer taken from the pool. -/
def sysTimeoutList (msecs : ℕ) (c : Callback) : List SysTimeo → List SysTimeo
  | [] => [(msecs, c)]
  | first :: rest =>
    if first.1 > msecs then (msecs, c) :: (subU32 first.1 msecs, first.2) :: rest
    else sysTimeoutLoop msecs c (first :: rest)

/-- The test of `sys_untimeout`. -/
def Callback.is (h arg : ℕ) (c : Callback) : Bool := c.h = h ∧ c.arg = arg

/-- What `sys_untimeout` does to the list behind the timer it takes out. -/
def giveBack (time : ℕ) : List SysTimeo → List SysTimeo
  | [] => []
  | next :: more => (addU32 next.1 time, next.2) :: more

/-- `sys_untimeout`, on the list. -/
def sysUntimeoutList (h arg : ℕ) : List SysTimeo → List SysTimeo
  | [] => []
  | t :: rest => if t.2.is h arg then giveBack t.1 rest else t :: sysUntimeoutList h arg rest

/-! ## The stack -/

/-- What is known of a timer when it is set, or called: the time counted and not counted so far,
and, when it is set, its time. -/
structure Setting where
  callback : Callback
  counted : ℕ
  lost : ℕ
  msecs : ℕ
  deriving DecidableEq, Repr

structure Calling where
  callback : Callback
  counted : ℕ
  lost : ℕ
  deriving DecidableEq, Repr

/-- The list, the free entries of the pool, and the records. -/
structure Timers where
  nextTimeout : List SysTimeo
  memp : ℕ
  counted : ℕ
  lost : ℕ
  set : List Setting
  called : List Calling
  removed : List Callback
  deriving DecidableEq, Repr

/-- When a timer is due, in time counted. -/
def Setting.due (g : Setting) : ℕ := g.counted + g.msecs

namespace Timers

/-- The start: no timer, and all entries in the pool. -/
def start : Timers where
  nextTimeout := []
  memp := mempNumSysTimeout
  counted := 0
  lost := 0
  set := []
  called := []
  removed := []

/-- `sys_timeout`. Without an entry in the pool it prints a warning and sets nothing. -/
def sysTimeout (msecs h arg : ℕ) (s : Timers) : Timers :=
  if s.memp = 0 then s
  else
    let callback := ⟨h, arg, s.set.length⟩
    { s with
      nextTimeout := sysTimeoutList msecs callback s.nextTimeout
      memp := s.memp - 1
      set := s.set ++ [⟨callback, s.counted, s.lost, msecs⟩] }

/-- `sys_untimeout`. -/
def sysUntimeout (h arg : ℕ) (s : Timers) : Timers :=
  match s.nextTimeout.find? fun t => t.2.is h arg with
  | none => s
  | some t =>
    { s with
      nextTimeout := sysUntimeoutList h arg s.nextTimeout
      memp := s.memp + 1
      removed := s.removed ++ [t.2] }

/-- `sys_timeouts_mbox_fetch` when the fetch times out, or the first timer is due already. A timer
whose handler is null is recorded as called, too. -/
def expire (s : Timers) : Option Timers :=
  match s.nextTimeout with
  | [] => none
  | t :: rest =>
    some { s with
      nextTimeout := rest
      memp := s.memp + 1
      counted := s.counted + t.1
      called := s.called ++ [⟨t.2, s.counted + t.1, s.lost⟩] }

/-- `sys_timeouts_mbox_fetch` when a message came after a time. The fetch is made only if no timer
is set or the first one has time left. -/
def message (timeNeeded : ℕ) (s : Timers) : Option Timers :=
  match s.nextTimeout with
  | [] => some { s with counted := s.counted + timeNeeded }
  | t :: rest =>
    if t.1 = 0 then none
    else if timeNeeded < t.1 then
      some { s with
        nextTimeout := (subU32 t.1 timeNeeded, t.2) :: rest
        counted := s.counted + timeNeeded }
    else
      some { s with
        nextTimeout := (0, t.2) :: rest
        counted := s.counted + t.1
        lost := s.lost + (timeNeeded - t.1) }

/-- What can happen in the thread of the stack. -/
inductive Event
  | timeout (msecs h arg : ℕ)
  | untimeout (h arg : ℕ)
  | expire
  | message (timeNeeded : ℕ)
  deriving DecidableEq, Repr

/-- One step. Times are 32-bit values, and a message comes with a time other than
`SYS_ARCH_TIMEOUT`. -/
def step (s : Timers) : Event → Option Timers
  | .timeout msecs h arg => if msecs < 2 ^ 32 then some (s.sysTimeout msecs h arg) else none
  | .untimeout h arg => some (s.sysUntimeout h arg)
  | .expire => s.expire
  | .message timeNeeded => if timeNeeded < 2 ^ 32 - 1 then s.message timeNeeded else none

/-- The timers of the stack, as a machine. -/
def machine : Lib.Machine Timers Event := ⟨start, step⟩

end Timers

/-! ## 32-bit times do not wrap -/

theorem subU32_eq {a b : ℕ} (hb : b ≤ a) (ha : a < 2 ^ 32) : subU32 a b = a - b := by
  rw [subU32, show a + 2 ^ 32 - b = a - b + 2 ^ 32 by omega, Nat.add_mod_right]
  exact Nat.mod_eq_of_lt (by omega)

theorem addU32_eq {a b : ℕ} (h : a + b < 2 ^ 32) : addU32 a b = a + b := Nat.mod_eq_of_lt h

/-- All timers are due within the range of a 32-bit counter. -/
def Near (l : List SysTimeo) : Prop := ∀ t ∈ absolute 0 l, t.1 < 2 ^ 32

theorem Near.tail {t : SysTimeo} {l : List SysTimeo} {base : ℕ}
    (h : ∀ e ∈ absolute base (t :: l), e.1 < 2 ^ 32) :
    ∀ e ∈ absolute (base + t.1) l, e.1 < 2 ^ 32 :=
  fun e he => h e (List.mem_cons_of_mem _ he)

/-- The loop of `sys_timeout` inserts. -/
theorem sysTimeoutLoop_eq {time : ℕ} {c : Callback} {t : SysTimeo} {l : List SysTimeo} {base : ℕ}
    (htime : time < 2 ^ 32) (ht : t.1 ≤ time)
    (hnear : ∀ e ∈ absolute base (t :: l), e.1 < 2 ^ 32) :
    sysTimeoutLoop time c (t :: l) = deltaInsert time c (t :: l) := by
  induction l generalizing time t base with
  | nil =>
    rw [sysTimeoutLoop, subU32_eq ht htime, deltaInsert, if_neg (Nat.not_lt.mpr ht), deltaInsert]
  | cons next more ih =>
    have hnext : base + t.1 + next.1 < 2 ^ 32 := Near.tail hnear _ List.mem_cons_self
    rw [sysTimeoutLoop, deltaInsert, if_neg (Nat.not_lt.mpr ht)]
    simp only [subU32_eq ht htime]
    by_cases hlt : time - t.1 < next.1
    · rw [if_pos hlt, deltaInsert, if_pos hlt, subU32_eq hlt.le (by omega)]
    · rw [if_neg hlt, ih (by omega) (Nat.not_lt.mp hlt) (Near.tail hnear)]

/-- `sys_timeout` inserts. -/
theorem sysTimeoutList_eq {msecs : ℕ} {c : Callback} {l : List SysTimeo} (hmsecs : msecs < 2 ^ 32)
    (hnear : Near l) : sysTimeoutList msecs c l = deltaInsert msecs c l := by
  cases l with
  | nil => rfl
  | cons first rest =>
    have hfirst : 0 + first.1 < 2 ^ 32 := hnear _ List.mem_cons_self
    rw [sysTimeoutList]
    by_cases hlt : msecs < first.1
    · rw [if_pos hlt, deltaInsert, if_pos hlt, subU32_eq hlt.le (by omega)]
    · rw [if_neg hlt, sysTimeoutLoop_eq hmsecs (Nat.not_lt.mp hlt) hnear]

/-- `sys_untimeout` removes. -/
theorem sysUntimeoutList_eq {h arg base : ℕ} {l : List SysTimeo}
    (hnear : ∀ e ∈ absolute base l, e.1 < 2 ^ 32) :
    sysUntimeoutList h arg l = deltaErase (Callback.is h arg) l := by
  induction l generalizing base with
  | nil => rfl
  | cons t rest ih =>
    rw [sysUntimeoutList, deltaErase]
    by_cases his : t.2.is h arg = true
    · rw [if_pos his, if_pos his]
      cases rest with
      | nil => rfl
      | cons next more =>
        have hnext : base + t.1 + next.1 < 2 ^ 32 := Near.tail hnear _ List.mem_cons_self
        rw [giveBack, Lib.deltaAdd, addU32_eq (by omega)]
    · rw [if_neg his, if_neg his, ih (Near.tail hnear)]

/-! ## The invariant -/

namespace Timers

/-- The timers in the list, with the times they are due. -/
def pending (s : Timers) : List (ℕ × Callback) := absolute s.counted s.nextTimeout

/-- The calls made, with their times. -/
def calls (s : Timers) : List (ℕ × Callback) := s.called.map fun c => (c.counted, c.callback)

/-- Of two timers due at the same time the one set first is called first. -/
def Earlier : ℕ × Callback → ℕ × Callback → Prop := Before fun a b => a.no < b.no

/-- What holds between the steps. -/
structure Kept (s : Timers) : Prop where
  /-- the pool has what the list has not -/
  pool : s.nextTimeout.length + s.memp = mempNumSysTimeout
  /-- no remaining time leaves 32 bits -/
  near : Near s.nextTimeout
  /-- the calls, made and to come, in their order -/
  order : (s.calls ++ s.pending).Pairwise Earlier
  /-- no call is made later than now -/
  past : ∀ e ∈ s.calls, e.1 ≤ s.counted
  /-- what was set is numbered as it was set -/
  numbered : s.set.map (·.callback.no) = List.range s.set.length
  /-- each timer is called, taken out or still in the list, and once -/
  account : (s.set.map (·.callback)).Perm
    (s.called.map (·.callback) ++ s.removed ++ s.nextTimeout.map Prod.snd)
  /-- a call is made when its timer is due -/
  onTime : ∀ c ∈ s.called, ∃ g ∈ s.set,
    g.callback = c.callback ∧ g.due = c.counted ∧ g.lost ≤ c.lost
  /-- a timer in the list is to be called when it is due -/
  timely : ∀ e ∈ s.pending, ∃ g ∈ s.set, g.callback = e.2 ∧ g.due = e.1
  /-- what is lost only grows -/
  losses : ∀ g ∈ s.set, g.lost ≤ s.lost

theorem kept_start : start.Kept where
  pool := rfl
  near := nofun
  order := .nil
  past := nofun
  numbered := rfl
  account := .nil
  onTime := nofun
  timely := nofun
  losses := nofun

variable {s t : Timers}

theorem callback_mem_of_pending {e : ℕ × Callback} (h : e ∈ s.pending) :
    e.2 ∈ s.nextTimeout.map Prod.snd := by
  rw [← @Lib.map_snd_absolute _ s.counted]
  exact List.mem_map_of_mem h

/-- The number of the next timer is above those of all timers set. -/
theorem Kept.no_lt (h : s.Kept) {c : Callback} (hc : c ∈ s.set.map (·.callback)) :
    c.no < s.set.length := by
  have hno : c.no ∈ (s.set.map (·.callback)).map Callback.no := List.mem_map_of_mem hc
  rw [List.map_map] at hno
  exact List.mem_range.mp (h.numbered ▸ hno)

theorem Kept.pending_no_lt (h : s.Kept) {e : ℕ × Callback} (he : e ∈ s.pending) :
    e.2.no < s.set.length :=
  h.no_lt (h.account.mem_iff.mpr (List.mem_append_right _ (callback_mem_of_pending he)))

theorem Kept.calls_no_lt (h : s.Kept) {e : ℕ × Callback} (he : e ∈ s.calls) :
    e.2.no < s.set.length := by
  obtain ⟨c, hc, rfl⟩ := List.mem_map.mp he
  exact h.no_lt (h.account.mem_iff.mpr (List.mem_append_left _ (List.mem_append_left _
    (List.mem_map_of_mem hc))))

/-- No timer in the list is overdue. -/
theorem counted_le_of_pending {e : ℕ × Callback} (h : e ∈ s.pending) : s.counted ≤ e.1 :=
  Lib.le_of_mem_absolute h

/-! ## Every step keeps the invariant -/

theorem Near.mono {d e : ℕ} {c : Callback} {l : List SysTimeo} (h : Near ((e, c) :: l))
    (hle : d ≤ e) : Near ((d, c) :: l) := by
  intro t ht
  rw [Lib.absolute_cons, List.mem_cons] at ht
  rcases ht with rfl | ht
  · have hhead : 0 + e < 2 ^ 32 := h _ List.mem_cons_self
    exact (Nat.add_le_add_left hle 0).trans_lt hhead
  · obtain ⟨f, hf, hlater⟩ := Lib.exists_later (Nat.add_le_add_left hle 0) ht
    exact hlater.trans_lt (h f (List.mem_cons_of_mem _ hf))

theorem Kept.sysTimeout {msecs h arg : ℕ} (hs : s.Kept) (hmsecs : msecs < 2 ^ 32) :
    (s.sysTimeout msecs h arg).Kept := by
  rw [Timers.sysTimeout]
  by_cases hmemp : s.memp = 0
  · rw [if_pos hmemp]
    exact hs
  rw [if_neg hmemp]
  dsimp only
  generalize hcb : (⟨h, arg, s.set.length⟩ : Callback) = cb
  have hno : cb.no = s.set.length := by rw [← hcb]
  have hpending : absolute s.counted (deltaInsert msecs cb s.nextTimeout) =
      dueInsert (s.counted + msecs) cb s.pending := Lib.absolute_deltaInsert
  rw [sysTimeoutList_eq hmsecs hs.near]
  refine ⟨?_, ?_, ?_, hs.past, ?_, ?_, ?_, ?_, ?_⟩
  · have := hs.pool
    simp only [Lib.length_deltaInsert]
    omega
  · intro t ht
    simp only [Lib.absolute_deltaInsert, Lib.dueInsert_perm.mem_iff, List.mem_cons] at ht
    rcases ht with rfl | ht
    · simpa using hmsecs
    · exact hs.near t ht
  · obtain ⟨hcalls, hpend, hcross⟩ := List.pairwise_append.mp hs.order
    change (s.calls ++ absolute s.counted (deltaInsert msecs cb s.nextTimeout)).Pairwise Earlier
    rw [hpending]
    refine List.pairwise_append.mpr ⟨hcalls, ?_, fun a ha b hb => ?_⟩
    · exact Lib.pairwise_dueInsert hpend fun e he => hno.symm ▸ hs.pending_no_lt he
    · rcases List.mem_cons.mp (Lib.dueInsert_perm.mem_iff.mp hb) with rfl | hb
      · -- a call that is made was due before the new timer was set
        have hpast := hs.past a ha
        rcases (hpast.trans (Nat.le_add_right _ msecs)).lt_or_eq with hlt | heq
        · exact .inl hlt
        · exact .inr ⟨heq, (hs.calls_no_lt ha).trans_eq hno.symm⟩
      · exact hcross a ha b hb
  · simp only [List.map_append, List.map_cons, List.map_nil, List.length_append, List.length_cons,
      List.length_nil, List.range_succ, hno, hs.numbered, Nat.zero_add]
  · simp only [List.map_append, List.map_cons, List.map_nil]
    refine (hs.account.append_right [cb]).trans ?_
    rw [List.append_assoc]
    exact ((List.perm_append_singleton cb _).trans Lib.map_snd_deltaInsert_perm.symm).append_left _
  · intro c hc
    obtain ⟨g, hg, hsame⟩ := hs.onTime c hc
    exact ⟨g, List.mem_append_left _ hg, hsame⟩
  · intro e he
    change e ∈ absolute s.counted (deltaInsert msecs cb s.nextTimeout) at he
    rw [hpending, Lib.dueInsert_perm.mem_iff, List.mem_cons] at he
    rcases he with rfl | he
    · exact ⟨_, List.mem_append_right _ List.mem_cons_self, rfl, rfl⟩
    · obtain ⟨g, hg, hsame⟩ := hs.timely e he
      exact ⟨g, List.mem_append_left _ hg, hsame⟩
  · intro g hg
    rcases List.mem_append.mp hg with hg | hg
    · exact hs.losses g hg
    · rw [List.mem_singleton.mp hg]

theorem Kept.sysUntimeout {h arg : ℕ} (hs : s.Kept) : (s.sysUntimeout h arg).Kept := by
  rw [Timers.sysUntimeout]
  cases hfind : s.nextTimeout.find? fun t => t.2.is h arg with
  | none => exact hs
  | some t =>
    dsimp only
    have hperm := Lib.map_snd_deltaErase_perm (p := Callback.is h arg) hfind
    have hpending : absolute s.counted (deltaErase (Callback.is h arg) s.nextTimeout) =
        s.pending.eraseP fun e => e.2.is h arg := Lib.absolute_deltaErase
    rw [sysUntimeoutList_eq hs.near]
    have hsub : ∀ e ∈ absolute s.counted (deltaErase (Callback.is h arg) s.nextTimeout),
        e ∈ s.pending := by
      rw [hpending]
      exact fun e he => List.eraseP_subset he
    refine ⟨?_, ?_, ?_, hs.past, hs.numbered, ?_, hs.onTime, fun e he => hs.timely e (hsub e he),
      hs.losses⟩
    · have hlen := hperm.length_eq
      have := hs.pool
      simp only [List.length_map, List.length_cons] at hlen ⊢
      omega
    · intro e he
      rw [Lib.absolute_deltaErase] at he
      exact hs.near e (List.eraseP_subset he)
    · refine hs.order.sublist (List.Sublist.append (List.Sublist.refl _) ?_)
      change List.Sublist (absolute s.counted (deltaErase (Callback.is h arg) s.nextTimeout)) _
      rw [hpending]
      exact List.eraseP_sublist
    · refine hs.account.trans ?_
      simp only [List.append_assoc]
      exact (hperm.append_left s.removed).append_left _

theorem Kept.expire (hs : s.Kept) (h : s.expire = some t) : t.Kept := by
  rw [Timers.expire] at h
  cases hnext : s.nextTimeout with
  | nil => rw [hnext] at h; cases h
  | cons first rest =>
    rw [hnext] at h
    cases h
    have hpending : s.pending =
        (s.counted + first.1, first.2) :: absolute (s.counted + first.1) rest := by
      rw [pending, hnext, Lib.absolute]
    have hpool := hs.pool
    have hnear := hs.near
    have hacc := hs.account
    rw [hnext] at hpool hnear hacc
    have hmap : (s.called ++ [(⟨first.2, s.counted + first.1, s.lost⟩ : Calling)]).map
        (fun c => (c.counted, c.callback)) = s.calls ++ [(s.counted + first.1, first.2)] := by
      rw [List.map_append]
      rfl
    refine ⟨?_, ?_, ?_, ?_, hs.numbered, ?_, ?_, ?_, hs.losses⟩
    · simp only [List.length_cons] at hpool ⊢
      omega
    · exact fun e he => Near.mono (c := first.2) hnear (Nat.zero_le first.1) e
        (List.mem_cons_of_mem _ he)
    · change (List.map _ _ ++ absolute (s.counted + first.1) rest).Pairwise Earlier
      rw [hmap, List.append_assoc, List.singleton_append, ← hpending]
      exact hs.order
    · intro e he
      change e ∈ List.map _ _ at he
      rw [hmap] at he
      rcases List.mem_append.mp he with he | he
      · exact (hs.past e he).trans (Nat.le_add_right _ _)
      · rw [List.mem_singleton.mp he]
    · simp only [List.map_append, List.map_cons, List.map_nil]
      refine hacc.trans ?_
      simp only [List.map_cons, List.append_assoc, List.singleton_append]
      exact (List.perm_middle (a := first.2)).append_left _
    · intro c hc
      rcases List.mem_append.mp hc with hc | hc
      · exact hs.onTime c hc
      · rw [List.mem_singleton.mp hc]
        obtain ⟨g, hg, hcb, hdue⟩ := hs.timely (s.counted + first.1, first.2)
          (hpending ▸ List.mem_cons_self)
        exact ⟨g, hg, hcb, hdue, hs.losses g hg⟩
    · exact fun e he => hs.timely e (hpending ▸ List.mem_cons_of_mem _ he)

/-- Time passes: it is counted, and taken off the first timer, as far as that one has it. -/
theorem passed {first : SysTimeo} {rest : List SysTimeo} {d : ℕ} (late : ℕ) (hs : s.Kept)
    (hnext : s.nextTimeout = first :: rest) (hd : d ≤ first.1) :
    Kept { s with
      nextTimeout := (first.1 - d, first.2) :: rest
      counted := s.counted + d
      lost := s.lost + late } := by
  have hpool := hs.pool
  have hnear := hs.near
  have hacc := hs.account
  rw [hnext] at hpool hnear hacc
  have hpending : absolute (s.counted + d) ((first.1 - d, first.2) :: rest) = s.pending := by
    rw [pending, hnext, Lib.absolute_cons, Lib.absolute, Nat.add_assoc, Nat.add_sub_cancel' hd]
  refine ⟨hpool, Near.mono hnear (Nat.sub_le _ _), ?_, fun e he => ?_, hs.numbered, hacc, hs.onTime,
    fun e he => hs.timely e (hpending ▸ he), fun g hg => ?_⟩
  · change (s.calls ++ absolute (s.counted + d) ((first.1 - d, first.2) :: rest)).Pairwise Earlier
    rw [hpending]
    exact hs.order
  · exact (hs.past e he).trans (Nat.le_add_right _ _)
  · exact (hs.losses g hg).trans (Nat.le_add_right _ _)

theorem Kept.message {timeNeeded : ℕ} (hs : s.Kept) (h : s.message timeNeeded = some t) :
    t.Kept := by
  rw [Timers.message] at h
  cases hnext : s.nextTimeout with
  | nil =>
    rw [hnext] at h
    cases h
    have hpool := hs.pool
    have hacc := hs.account
    have horder := hs.order
    rw [pending, hnext] at horder
    rw [hnext] at hpool hacc
    exact ⟨hpool, nofun, horder, fun e he => (hs.past e he).trans (Nat.le_add_right _ _),
      hs.numbered, hacc, hs.onTime, nofun, hs.losses⟩
  | cons first rest =>
    rw [hnext] at h
    simp only at h
    split_ifs at h with hzero hlt
    · cases h
      rw [subU32_eq hlt.le]
      · exact passed 0 hs hnext hlt.le
      · have hnear := hs.near
        rw [hnext] at hnear
        have hfirst : 0 + first.1 < 2 ^ 32 := hnear _ List.mem_cons_self
        omega
    · cases h
      have := passed (timeNeeded - first.1) hs hnext le_rfl
      rwa [Nat.sub_self] at this

theorem Kept.step {e : Event} (hs : s.Kept) (h : s.step e = some t) : t.Kept := by
  cases e with
  | timeout msecs h' arg =>
    rw [Timers.step] at h
    split_ifs at h with hmsecs
    cases h
    exact hs.sysTimeout hmsecs
  | untimeout h' arg => cases h; exact hs.sysUntimeout
  | expire => exact hs.expire h
  | message timeNeeded =>
    rw [Timers.step] at h
    split_ifs at h with htime
    exact hs.message h

theorem kept_of_run {es : List Event} (h : machine.run start es = some s) : s.Kept :=
  (Lib.Machine.exec_of_run h).invariant kept_start fun _ _ _ hs _ hstep => hs.step hstep

/-! ## Every timer is called when it is due, and once -/

theorem Kept.nodup (h : s.Kept) : (s.set.map (·.callback)).Nodup := by
  refine List.Nodup.of_map Callback.no ?_
  rw [List.map_map]
  exact h.numbered ▸ List.nodup_range

/-- A timer that is neither called nor taken out is not overdue. -/
theorem Kept.not_overdue (h : s.Kept) {g : Setting} (hg : g ∈ s.set)
    (hcalled : g.callback ∉ s.called.map (·.callback)) (hremoved : g.callback ∉ s.removed) :
    s.counted ≤ g.due := by
  have hmem := h.account.mem_iff.mp (List.mem_map_of_mem hg)
  rw [List.mem_append, List.mem_append] at hmem
  have hpend := hmem.resolve_left fun hgone => hgone.elim hcalled hremoved
  rw [← @Lib.map_snd_absolute _ s.counted, List.mem_map] at hpend
  obtain ⟨e, he, hecb⟩ := hpend
  obtain ⟨g', hg', hcb, hdue⟩ := h.timely e he
  obtain rfl := List.inj_on_of_nodup_map h.nodup hg' hg (hcb.trans hecb)
  exact hdue ▸ counted_le_of_pending he

/-- In every run the calls are made in the order in which the timers are due, those of the same
time in the order they were set; each call is made exactly when its timer's time has been counted
since it was set, to which may come what the stack has not counted since; every timer set is called, taken out or
still to come, one of them and once; and none that is still to come is overdue. -/
theorem timers_exact {es : List Event} (h : machine.run start es = some s) :
    s.calls.Pairwise Earlier ∧
      (∀ c ∈ s.called, ∃ g ∈ s.set, g.callback = c.callback ∧ c.counted = g.due ∧
        g.lost ≤ c.lost) ∧
      (s.set.map (·.callback)).Nodup ∧
      (s.set.map (·.callback)).Perm
        (s.called.map (·.callback) ++ s.removed ++ s.nextTimeout.map Prod.snd) ∧
      ∀ g ∈ s.set, g.callback ∉ s.called.map (·.callback) → g.callback ∉ s.removed →
        s.counted ≤ g.due := by
  have hs := kept_of_run h
  refine ⟨(List.pairwise_append.mp hs.order).1, fun c hc => ?_, hs.nodup, hs.account,
    fun g hg hcalled hremoved => hs.not_overdue hg hcalled hremoved⟩
  obtain ⟨g, hg, hcb, hdue, hlost⟩ := hs.onTime c hc
  exact ⟨g, hg, hcb, hdue.symm, hlost⟩

/-- Four timers, one of them set while time runs, one taken out, and a message that comes late. -/
def fourTimers : List Event :=
  [.timeout 250 1 0, .timeout 100 2 0, .message 40, .timeout 60 3 0, .timeout 5000 4 7,
    .untimeout 4 7, .message 75, .expire, .expire, .message 5]

theorem fourTimers_runs : (machine.run start fourTimers).isSome = true := by decide

/-- The late message costs both timers called 15 ms. -/
theorem timers_exact_fourTimers :
    let s := (machine.run start fourTimers).get fourTimers_runs
    s.called.map (fun c => (c.callback.h, c.counted, c.lost)) = [(2, 100, 15), (3, 100, 15)] ∧
      s.calls.Pairwise Earlier ∧
      ∀ c ∈ s.called, ∃ g ∈ s.set, g.callback = c.callback ∧ c.counted = g.due ∧
        g.lost ≤ c.lost := by
  obtain ⟨horder, honTime, -⟩ := timers_exact (Option.some_get fourTimers_runs).symm
  exact ⟨by decide, horder, honTime⟩

end Timers

end FanGateway.Lwip
