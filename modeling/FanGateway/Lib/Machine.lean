import Mathlib.Data.List.Induction
import Mathlib.Tactic.SplitIfs

/-!
# Guarded machines and the runs that meet a condition

A machine is an initial state and an executable step function that answers
`none` when an event is disabled. A run is a list of events replayed from a
state. The relation `Exec` keeps, next to the events of a run, a condition that
every step of it meets on the state before the step; with the trivial condition
it is replay itself.

An invariant of a machine is proved once per step and then holds along every
run, and the condition is available to the step proof.
-/

namespace Lib

variable {σ ε : Type*}

/-- An initial state and a guarded step: `none` means the event is disabled. -/
structure Machine (σ ε : Type*) where
  init : σ
  step : σ → ε → Option σ

namespace Machine

variable (m : Machine σ ε)

/-- Replay a list of events, failing at the first disabled one. -/
def run (s : σ) : List ε → Option σ
  | [] => some s
  | e :: es => (m.step s e).bind fun t => run t es

@[simp] theorem run_nil (s : σ) : m.run s [] = some s := rfl

theorem run_cons (s : σ) (e : ε) (es : List ε) :
    m.run s (e :: es) = (m.step s e).bind fun t => m.run t es := rfl

theorem run_singleton (s : σ) (e : ε) : m.run s [e] = m.step s e := by
  rw [run_cons]
  cases m.step s e <;> rfl

/-- Replay of a concatenation is replay of the second part after the first. -/
theorem run_append (s : σ) (es fs : List ε) :
    m.run s (es ++ fs) = (m.run s es).bind fun t => m.run t fs := by
  induction es generalizing s with
  | nil => rfl
  | cons e es ih =>
    rw [List.cons_append, run_cons, run_cons]
    cases m.step s e with
    | none => rfl
    | some t => exact ih t

/-- A run from `s` to `t` each of whose steps meets `ok` on the state before it. -/
inductive Exec (ok : σ → ε → Prop) (s : σ) : List ε → σ → Prop
  | nil : Exec ok s [] s
  | snoc {t u : σ} {es : List ε} {e : ε} :
      Exec ok s es t → ok t e → m.step t e = some u → Exec ok s (es ++ [e]) u

/-- The trivial condition, under which a run is any run. -/
def Any (_ : σ) (_ : ε) : Prop := True

variable {m} {ok : σ → ε → Prop} {s t u : σ} {es fs : List ε}

/-- Runs that meet a condition are runs. -/
theorem Exec.run_eq (h : m.Exec ok s es t) : m.run s es = some t := by
  induction h with
  | nil => rfl
  | snoc _ _ hstep ih => simp [run_append, ih, run_cons, hstep]

/-- Every successful replay is a run under the trivial condition. -/
theorem exec_of_run (h : m.run s es = some t) : m.Exec Any s es t := by
  -- `Exec` grows at the end, so the last event is split off
  induction es using List.reverseRecOn generalizing t with
  | nil => cases h; exact .nil
  | append_singleton es e ih =>
    rw [run_append, Option.bind_eq_some_iff] at h
    obtain ⟨mid, hmid, hlast⟩ := h
    rw [run_cons, Option.bind_eq_some_iff] at hlast
    obtain ⟨last, hstep, hend⟩ := hlast
    cases hend
    exact .snoc (ih hmid) trivial hstep

/-- What begins a run is a run. -/
theorem run_of_prefix (hpre : es <+: fs) (h : m.run s fs = some t) : ∃ u, m.run s es = some u := by
  obtain ⟨gs, rfl⟩ := hpre
  rw [run_append, Option.bind_eq_some_iff] at h
  obtain ⟨u, hu, -⟩ := h
  exact ⟨u, hu⟩

/-- A run meets a condition if the steps at the ends of its beginnings do. -/
theorem exec_of_steps (h : m.run s es = some t)
    (hok : ∀ before e u, before ++ [e] <+: es → m.run s before = some u → ok u e) :
    m.Exec ok s es t := by
  have hexec := exec_of_run h
  clear h
  induction hexec with
  | nil => exact .nil
  | snoc hes _ hstep ih =>
    refine .snoc (ih fun before e u hpre => ?_) (hok _ _ _ (List.prefix_refl _) hes.run_eq) hstep
    exact hok before e u (hpre.trans (List.prefix_append _ _))

/-- In a run that meets a condition, so does the step at the end of every beginning. -/
theorem Exec.of_prefix {e : ε} {before : List ε} (h : m.Exec ok s es t)
    (hpre : before ++ [e] <+: es) (hbefore : m.run s before = some u) : ok u e := by
  induction h with
  | nil => exact absurd (List.prefix_nil.mp hpre) (List.append_ne_nil_of_right_ne_nil _ (by simp))
  | snoc hes hok hstep ih =>
    rcases List.prefix_concat_iff.mp hpre with hall | hshort
    · obtain ⟨rfl, hlast⟩ := List.append_inj' hall rfl
      cases hlast
      obtain rfl := Option.some.inj (hes.run_eq.symm.trans hbefore)
      exact hok
    · exact ih hshort

/-- **Invariant rule.** What holds at the start and survives every step that
meets the condition holds at the end of every run that meets it. -/
theorem Exec.invariant {P : σ → Prop} (h : m.Exec ok s es t) (hinit : P s)
    (hstep : ∀ s e t, P s → ok s e → m.step s e = some t → P t) : P t := by
  induction h with
  | nil => exact hinit
  | snoc _ hok hs ih => exact hstep _ _ _ ih hok hs

/-- The last step of a run. -/
theorem Exec.of_snoc {e : ε} (h : m.Exec ok s (es ++ [e]) u) :
    ∃ t, m.Exec ok s es t ∧ ok t e ∧ m.step t e = some u := by
  generalize hevents : es ++ [e] = fs at h
  cases h with
  | nil => exact absurd hevents (List.append_ne_nil_of_right_ne_nil _ (List.cons_ne_nil _ _))
  | snoc hes hok hstep =>
    obtain ⟨rfl, hlast⟩ := List.append_inj' hevents rfl
    cases hlast
    exact ⟨_, hes, hok, hstep⟩

/-- What a step keeps exactly if it meets a condition holds at the end of exactly the runs that
meet it; an invariant may help to show it of the step. -/
theorem iff_exec {P I : σ → Prop} (h : m.run s es = some t) (hinit : P s) (hI : I s)
    (hinv : ∀ s e t, I s → m.step s e = some t → I t)
    (hstep : ∀ s e t, I s → m.step s e = some t → (P t ↔ P s ∧ ok s e)) :
    P t ↔ m.Exec ok s es t := by
  have hexec := exec_of_run h
  clear h
  -- induction on the run; the state before the last step is the one that replay leads to
  induction hexec with
  | nil => exact iff_of_true hinit .nil
  | snoc hes _ hlast ih =>
    have hmid := hes.invariant hI fun s e t hs _ => hinv s e t hs
    rw [hstep _ _ _ hmid hlast]
    constructor
    · rintro ⟨hbefore, hok⟩
      exact .snoc (ih.mp hbefore) hok hlast
    · intro hall
      obtain ⟨v, hbefore, hok, -⟩ := hall.of_snoc
      obtain rfl := Option.some.inj (hbefore.run_eq.symm.trans hes.run_eq)
      exact ⟨ih.mpr hbefore, hok⟩

/-- The machine in which a step that does not meet a condition is disabled. -/
def restrict (m : Machine σ ε) (ok : σ → ε → Prop) [∀ s e, Decidable (ok s e)] :
    Machine σ ε where
  init := m.init
  step s e := if ok s e then m.step s e else none

/-- Replay in the restricted machine yields runs that meet the condition. -/
theorem exec_of_run_restrict [∀ s e, Decidable (ok s e)]
    (h : (m.restrict ok).run s es = some t) : m.Exec ok s es t := by
  have hexec := exec_of_run h
  clear h
  induction hexec with
  | nil => exact .nil
  | snoc _ _ hstep ih =>
    simp only [restrict] at hstep
    split_ifs at hstep with hok
    exact .snoc ih hok hstep

/-- A state some run leads to. -/
def Reachable (m : Machine σ ε) (t : σ) : Prop := ∃ es, m.Exec Any m.init es t

theorem Reachable.invariant {P : σ → Prop} (h : m.Reachable t) (hinit : P m.init)
    (hstep : ∀ s e t, P s → m.step s e = some t → P t) : P t := by
  obtain ⟨es, hes⟩ := h
  exact hes.invariant hinit fun s e t hP _ hs => hstep s e t hP hs

/-- What follows a reachable state is reachable. -/
theorem Reachable.run (h : m.Reachable s) (hrun : m.run s es = some t) : m.Reachable t := by
  obtain ⟨fs, hfs⟩ := h
  refine ⟨fs ++ es, exec_of_run ?_⟩
  rw [run_append, hfs.run_eq, Option.bind_some, hrun]

/-- **Simulation rule.** If every step of a machine is matched by a run of a second one, the second
one can follow the first wherever it goes. -/
theorem Reachable.simulated {σ' ε' : Type*} {m' : Machine σ' ε'} {R : σ → σ' → Prop}
    (h : m.Reachable t) (hinit : R m.init m'.init)
    (hstep : ∀ s e t s', R s s' → m'.Reachable s' → m.step s e = some t →
      ∃ es' t', m'.run s' es' = some t' ∧ R t t') : ∃ t', m'.Reachable t' ∧ R t t' := by
  refine h.invariant (P := fun s => ∃ s', m'.Reachable s' ∧ R s s')
    ⟨m'.init, ⟨[], .nil⟩, hinit⟩ ?_
  rintro s e t ⟨s', hs', hrel⟩ hs
  obtain ⟨es', t', hrun, hrel'⟩ := hstep s e t s' hrel hs' hs
  exact ⟨t', hs'.run hrun, hrel'⟩

end Machine

end Lib
