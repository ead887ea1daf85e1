import Mathlib.Data.List.Basic
import Mathlib.Order.Basic

/-!
# Machines: guarded step functions, runs and what holds along them

A machine is a *guarded, executable* step function `step : S → A → Option S`:
`step s a` is `some s'` when action `a` is enabled in `s` and leads to `s'`, and
`none` when it is not. The actions carry all nondeterminism (which thread moves,
what the environment answers), so one definition serves for replaying a concrete
schedule and for reasoning about every schedule.

* `run` — a whole sequence of actions.
* `Along ok` — every step of a run meets the condition `ok` *in the state it is
  taken from*; this is how a run that stays clear of some bad step is described.
* `run_invariant`, `run_invariant_mem`, `run_invariant_along` — an invariant of the
  steps is an invariant of the runs: of all runs, of those that use certain actions
  only, or of those that meet `Along ok`.
* `run_invariant_past` — the same for what relates a state to the actions so far.
* `run_simulates` — a machine whose steps are steps of another one, seen through an
  abstraction function, has only runs of that one.
* `Since P Q` — an action with `P` has happened, and since then only actions with `Q`.
* `Throughout P` — every state of a run has the property `P`; by `throughout_iff_along` a
  condition on the steps can be both enough and needed for that.
* `run_length_le` — runs whose steps make a measure smaller are no longer than the measure.
* `CanReach` — some run leads to a state with a given property, and the measure
  rule `canReach_of_measure` that establishes it.
-/

namespace Machine

universe u v

variable {S : Type u} {A : Type v}

/-! ## Runs -/

/-- Run a sequence of actions, failing at the first one that is not enabled. -/
def run (step : S → A → Option S) : S → List A → Option S
  | s, [] => some s
  | s, a :: as => (step s a).bind fun s' => run step s' as

variable {step : S → A → Option S}

theorem run_cons (s : S) (a : A) (as : List A) :
    run step s (a :: as) = (step s a).bind fun s' => run step s' as := rfl

/-- Inversion for a run that starts with `a`. -/
theorem run_cons_eq_some {s s'' : S} {a : A} {as : List A}
    (h : run step s (a :: as) = some s'') :
    ∃ s', step s a = some s' ∧ run step s' as = some s'' := by
  rw [run_cons] at h
  exact Option.bind_eq_some_iff.mp h

/-- Introduction for a run that starts with `a`. -/
theorem run_cons_some {s s' : S} {a : A} {as : List A} (h : step s a = some s') :
    run step s (a :: as) = run step s' as := by
  rw [run_cons, h, Option.bind_some]

/-- One more action after a run. -/
theorem run_concat {s s' : S} {as : List A} (h : run step s as = some s') (a : A) :
    run step s (as ++ [a]) = step s' a := by
  induction as generalizing s with
  | nil =>
    obtain rfl := Option.some.inj h
    exact Option.bind_fun_some _
  | cons b as ih =>
    obtain ⟨s₁, hs₁, hrun⟩ := run_cons_eq_some h
    rw [List.cons_append, run_cons_some hs₁]
    exact ih hrun

/-! ## Conditions along a run -/

/-- Every step that the run takes meets `ok` in the state it is taken from. -/
def Along (step : S → A → Option S) (ok : S → A → Prop) : S → List A → Prop
  | _, [] => True
  | s, a :: as => ok s a ∧ ∀ s', step s a = some s' → Along step ok s' as

/-- A condition that can be checked in each state can be checked along a run. -/
instance decidableAlong {ok : S → A → Prop} [∀ s a, Decidable (ok s a)] :
    ∀ (s : S) (as : List A), Decidable (Along step ok s as)
  | _, [] => isTrue trivial
  | s, a :: as =>
    match hs : step s a with
    | none => decidable_of_iff (ok s a)
        ⟨fun h => ⟨h, fun s' hs' => by rw [hs] at hs'; cases hs'⟩, And.left⟩
    | some s₁ =>
      have : Decidable (Along step ok s₁ as) := decidableAlong s₁ as
      decidable_of_iff (ok s a ∧ Along step ok s₁ as)
        ⟨fun h => ⟨h.1, fun s' hs' => by rw [hs] at hs'; cases hs'; exact h.2⟩,
          fun h => ⟨h.1, h.2 s₁ hs⟩⟩

/-! ## Invariants -/

/-- **Invariant rule for restricted runs.** What every step meeting `ok`
preserves, every run whose steps all meet `ok` preserves. -/
theorem run_invariant_along {I : S → Prop} {ok : S → A → Prop}
    (hstep : ∀ {s a s'}, I s → ok s a → step s a = some s' → I s')
    {s s' : S} {as : List A} (hs : I s) (hok : Along step ok s as)
    (hrun : run step s as = some s') : I s' := by
  induction as generalizing s with
  | nil =>
    obtain rfl := Option.some.inj hrun
    exact hs
  | cons a as ih =>
    obtain ⟨s₁, hs₁, hrun₁⟩ := run_cons_eq_some hrun
    exact ih (hstep hs hok.1 hs₁) (hok.2 s₁ hs₁) hrun₁

/-- A condition on the actions alone holds along a run if it holds of the actions. -/
theorem along_of_forall_mem {p : A → Prop} (s : S) {as : List A} (h : ∀ a ∈ as, p a) :
    Along step (fun _ a => p a) s as := by
  induction as generalizing s with
  | nil => trivial
  | cons a as ih =>
    exact ⟨h a (List.mem_cons_self ..), fun s' _ => ih s' fun b hb =>
      h b (List.mem_cons_of_mem _ hb)⟩

/-- **Rule for conditions along a run.** What holds of every step with such an action from a
state of an invariant of these steps holds along every run with such actions only. -/
theorem along_of_invariant {I : S → Prop} {p : A → Prop} {ok : S → A → Prop}
    (hstep : ∀ {s a s'}, I s → p a → step s a = some s' → I s')
    (hok : ∀ {s a}, I s → p a → ok s a) {s : S} {as : List A} (hs : I s) (has : ∀ a ∈ as, p a) :
    Along step ok s as := by
  induction as generalizing s with
  | nil => trivial
  | cons a as ih =>
    have ha := has a (List.mem_cons_self ..)
    exact ⟨hok hs ha, fun s' hs' => ih (hstep hs ha hs') fun b hb =>
      has b (List.mem_cons_of_mem _ hb)⟩

/-- **Invariant rule for a set of actions.** What every step with such an action
preserves, every run with such actions only preserves. -/
theorem run_invariant_mem {I : S → Prop} {p : A → Prop}
    (hstep : ∀ {s a s'}, I s → p a → step s a = some s' → I s')
    {s s' : S} {as : List A} (hs : I s) (has : ∀ a ∈ as, p a)
    (hrun : run step s as = some s') : I s' := by
  have hok : Along step (fun _ a => p a) s as := along_of_forall_mem s has
  refine run_invariant_along ?_ hs hok hrun
  intro t a t' ht ha hstep'
  exact hstep ht ha hstep'

/-- **Invariant rule.** What every step preserves, every run preserves. -/
theorem run_invariant {I : S → Prop}
    (hstep : ∀ {s a s'}, I s → step s a = some s' → I s')
    {s s' : S} {as : List A} (hs : I s) (hrun : run step s as = some s') : I s' := by
  refine run_invariant_mem (p := fun _ => True) ?_ hs (fun _ _ => trivial) hrun
  intro t a t' ht _ hstep'
  exact hstep ht hstep'

/-- **Invariant rule with the past.** What every step preserves of a relation between
the actions so far and the state holds between a whole run and its last state. -/
theorem run_invariant_past {I : List A → S → Prop}
    (hstep : ∀ {past s a s'}, I past s → step s a = some s' → I (past ++ [a]) s')
    {past : List A} {s s' : S} {as : List A} (hs : I past s)
    (hrun : run step s as = some s') : I (past ++ as) s' := by
  induction as generalizing past s with
  | nil =>
    obtain rfl := Option.some.inj hrun
    rw [List.append_nil]
    exact hs
  | cons a as ih =>
    obtain ⟨s₁, hs₁, hrun₁⟩ := run_cons_eq_some hrun
    rw [List.append_cons]
    exact ih (hstep hs hs₁) hrun₁

/-! ## The past -/

/-- An element with `P` has been there, and since then only elements with `Q`. -/
def Since (P Q : A → Prop) (past : List A) : Prop :=
  ∃ before a after, past = before ++ a :: after ∧ P a ∧ ∀ b ∈ after, Q b

theorem not_since_nil {P Q : A → Prop} : ¬ Since P Q [] := by
  rintro ⟨before, a, after, h, -⟩
  exact List.append_ne_nil_of_right_ne_nil before (List.cons_ne_nil a after) h.symm

/-- One more element is the one with `P`, or it has `Q`. -/
theorem since_concat {P Q : A → Prop} {past : List A} {a : A} :
    Since P Q (past ++ [a]) ↔ P a ∨ Since P Q past ∧ Q a := by
  constructor
  · rintro ⟨before, b, after, h, hP, hQ⟩
    rcases List.eq_nil_or_concat' after with rfl | ⟨after', c, rfl⟩
    · obtain ⟨-, hab⟩ := List.append_inj' h rfl
      obtain rfl := List.head_eq_of_cons_eq hab
      exact .inl hP
    · rw [← List.cons_append, ← List.append_assoc] at h
      obtain ⟨rfl, hac⟩ := List.append_inj' h rfl
      obtain rfl := List.head_eq_of_cons_eq hac
      refine .inr ⟨⟨before, b, after', rfl, hP, fun x hx => ?_⟩, ?_⟩
      · exact hQ x (List.mem_append_left _ hx)
      · exact hQ a (List.mem_append_right _ (List.mem_singleton_self a))
  · rintro (hP | ⟨⟨before, b, after, rfl, hP, hQ⟩, ha⟩)
    · exact ⟨past, a, [], rfl, hP, nofun⟩
    · refine ⟨before, b, after ++ [a], List.append_assoc .., hP, fun x hx => ?_⟩
      rcases List.mem_append.mp hx with hx | hx
      · exact hQ x hx
      · exact List.mem_singleton.mp hx ▸ ha

/-! ## Simulation -/

/-- **Simulation rule.** If each step from a state of `I` keeps `I` and is, through `abs`, a
step of the other machine, then each run from such a state is a run of the other machine. -/
theorem run_simulates {S' : Type*} {step' : S' → A → Option S'} {I : S → Prop} {abs : S → S'}
    (hstep : ∀ {s a s'}, I s → step s a = some s' →
      I s' ∧ step' (abs s) a = some (abs s'))
    {s s' : S} {as : List A} (hs : I s) (hrun : run step s as = some s') :
    I s' ∧ run step' (abs s) as = some (abs s') := by
  induction as generalizing s with
  | nil =>
    obtain rfl := Option.some.inj hrun
    exact ⟨hs, rfl⟩
  | cons a as ih =>
    obtain ⟨s₁, hs₁, hrun₁⟩ := run_cons_eq_some hrun
    obtain ⟨hI, habs⟩ := hstep hs hs₁
    rw [run_cons_some habs]
    exact ih hI hrun₁

/-! ## What holds in all states of a run -/

/-- Every state of the run, the first and the last included, has the property `P`. -/
def Throughout (step : S → A → Option S) (P : S → Prop) : S → List A → Prop
  | s, [] => P s
  | s, a :: as => P s ∧ ∀ s', step s a = some s' → Throughout step P s' as

theorem Throughout.head {P : S → Prop} {s : S} :
    ∀ {as : List A}, Throughout step P s as → P s
  | [], h => h
  | _ :: _, h => h.1

/-- **A condition that decides.** If the steps that meet `ok` keep an invariant that
implies `P`, and those that do not lead out of `P`, then `P` holds throughout exactly the runs
whose steps all meet `ok`. -/
theorem throughout_iff_along {I P : S → Prop} {ok : S → A → Prop} (himp : ∀ {s}, I s → P s)
    (hkeep : ∀ {s a s'}, I s → ok s a → step s a = some s' → I s')
    (hbreak : ∀ {s a s'}, I s → ¬ ok s a → step s a = some s' → ¬ P s')
    {s s' : S} {as : List A} (hs : I s) (hrun : run step s as = some s') :
    Throughout step P s as ↔ Along step ok s as := by
  induction as generalizing s with
  | nil => exact iff_of_true (himp hs) trivial
  | cons a as ih =>
    obtain ⟨s₁, hs₁, hrun₁⟩ := run_cons_eq_some hrun
    constructor
    · intro h
      have hnext := h.2 s₁ hs₁
      have hok : ok s a := by
        by_contra hnot
        exact hbreak hs hnot hs₁ hnext.head
      refine ⟨hok, fun t ht => ?_⟩
      obtain rfl := Option.some.inj (hs₁.symm.trans ht)
      exact (ih (hkeep hs hok hs₁) hrun₁).mp hnext
    · intro h
      refine ⟨himp hs, fun t ht => ?_⟩
      obtain rfl := Option.some.inj (hs₁.symm.trans ht)
      exact (ih (hkeep hs h.1 hs₁) hrun₁).mpr (h.2 s₁ hs₁)

/-! ## Termination -/

/-- Some run from `s` leads to a state with property `P`. -/
def CanReach (step : S → A → Option S) (P : S → Prop) (s : S) : Prop :=
  ∃ as s', run step s as = some s' ∧ P s'

theorem CanReach.here {P : S → Prop} {s : S} (h : P s) : CanReach step P s :=
  ⟨[], s, rfl, h⟩

theorem CanReach.next {P : S → Prop} {s s' : S} {a : A} (h : step s a = some s')
    (hr : CanReach step P s') : CanReach step P s := by
  obtain ⟨as, s'', hrun, hP⟩ := hr
  exact ⟨a :: as, s'', by rw [run_cons_some h]; exact hrun, hP⟩

/-- **Measure rule.** If from every state of `I` outside the goal some action
leads to a state of `I` with a smaller measure, then the goal can be reached
from every state of `I`. -/
theorem canReach_of_measure {I P : S → Prop} (μ : S → ℕ)
    (hprog : ∀ s, I s → ¬ P s → ∃ a s', step s a = some s' ∧ I s' ∧ μ s' < μ s)
    {s : S} (hs : I s) : CanReach step P s := by
  -- strong induction on the measure of the state
  induction hn : μ s using Nat.strongRecOn generalizing s with
  | ind n ih =>
    by_cases hP : P s
    · exact .here hP
    · obtain ⟨a, s', hstep, hI, hlt⟩ := hprog s hs hP
      exact .next hstep (ih (μ s') (hn ▸ hlt) hI rfl)

end Machine
