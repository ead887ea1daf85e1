import Mathlib.Data.List.Basic
import Mathlib.Data.List.Induction
import Mathlib.Data.Nat.Notation

/-!
# Transition tables, composite states and chains of events

A transition table says, for a state and an event, which state comes next and which actions are
performed. The first row that fits is taken; an event for which there is none changes nothing.

* `react`, `processAll` — the meaning of a table, for one event and for a sequence of events.
* `nest` — a machine with a sub-machine in one of its states. The sub-machine gets each event
  first, the outer machine only what the sub-machine does not take, and entering the state starts
  the sub-machine anew.
* `follow` — how far a sequence of events leads along a chain. As no event is taken too early,
  that is as far as the chain is a subsequence of the events (`le_follow_iff`).
-/

namespace Statechart

variable {S T E A : Type*}

/-! ## Tables -/

/-- A row of a transition table. -/
structure Transition (S E A : Type*) where
  source : S
  /-- the event and the guard -/
  takes : E → Bool
  actions : List A
  target : S

/-- The next state and the actions, if the event is taken. -/
def react [DecidableEq S] (table : List (Transition S E A)) (s : S) (e : E) :
    Option (S × List A) :=
  (table.find? fun t => decide (t.source = s) && t.takes e).map fun t => (t.target, t.actions)

/-- A machine whose states `isSub` hold a sub-machine. -/
def nest (isSub : S → Bool) (outer : S → E → Option (S × List A)) (start : T)
    (sub : T → E → Option (T × List A)) (st : S × T) (e : E) : Option ((S × T) × List A) :=
  match if isSub st.1 then sub st.2 e else none with
  | some (t, actions) => some ((st.1, t), actions)
  | none => (outer st.1 e).map fun (s, actions) => ((s, if isSub s then start else st.2), actions)

/-- One event, with the actions that have been performed. -/
def process (machine : S → E → Option (S × List A)) (done : S × List A) (e : E) : S × List A :=
  match machine done.1 e with
  | some (s, actions) => (s, done.2 ++ actions)
  | none => done

/-- All events, one after the other. -/
def processAll (machine : S → E → Option (S × List A)) (s : S) (events : List E) : S × List A :=
  events.foldl (process machine) (s, [])

theorem processAll_concat (machine : S → E → Option (S × List A)) (s : S) (events : List E)
    (e : E) :
    processAll machine s (events ++ [e]) = process machine (processAll machine s events) e := by
  rw [processAll, List.foldl_append]
  rfl

/-- **Invariant rule.** What one event preserves of a relation between the events so far and the
state, a sequence of events preserves. -/
theorem processAll_invariant {machine : S → E → Option (S × List A)} {s : S}
    {I : List E → S × List A → Prop} (hinit : I [] (s, []))
    (hstep : ∀ events done e, I events done → I (events ++ [e]) (process machine done e))
    (events : List E) : I events (processAll machine s events) := by
  induction events using List.reverseRecOn with
  | nil => exact hinit
  | append_singleton events e ih =>
    rw [processAll_concat]
    exact hstep events _ e ih

/-! ## Chains -/

/-- How many events of the chain have come, one after the other. -/
def follow [DecidableEq E] : List E → List E → ℕ
  | [], _ => 0
  | _ :: _, [] => 0
  | c :: chain, e :: events =>
    if e = c then follow chain events + 1 else follow (c :: chain) events

variable [DecidableEq E]

theorem follow_nil (chain : List E) : follow chain [] = 0 := by
  cases chain <;> rfl

/-- **As far as possible.** A first part of the chain has been followed exactly if it is a
subsequence of the events. -/
theorem le_follow_iff {chain : List E} {n : ℕ} (hn : n ≤ chain.length) (events : List E) :
    n ≤ follow chain events ↔ (chain.take n).Sublist events := by
  induction events generalizing chain n with
  | nil =>
    rw [follow_nil, Nat.le_zero, List.sublist_nil, List.take_eq_nil_iff]
    constructor
    · exact .inl
    · rintro (h | rfl)
      · exact h
      · exact Nat.le_zero.mp hn
  | cons e events ih =>
    rcases chain with _ | ⟨c, chain⟩
    · obtain rfl := Nat.le_zero.mp hn
      exact iff_of_true (Nat.zero_le _) (List.nil_sublist _)
    rcases n with _ | n
    · exact iff_of_true (Nat.zero_le _) (List.nil_sublist _)
    rw [follow, List.take_succ_cons]
    split
    · subst e
      rw [List.cons_sublist_cons, Nat.succ_le_succ_iff]
      exact ih (Nat.le_of_succ_le_succ hn)
    · rename_i hne
      rw [ih hn, List.take_succ_cons, List.cons_sublist_cons']
      exact ⟨.inl, fun h => h.resolve_right fun hc => hne hc.1.symm⟩

/-- One more event is the next one of the chain, or it is not. -/
theorem follow_concat (chain events : List E) (e : E) :
    follow chain (events ++ [e]) =
      if chain[follow chain events]? = some e then follow chain events + 1
      else follow chain events := by
  induction events generalizing chain with
  | nil =>
    rcases chain with _ | ⟨c, chain⟩
    · rfl
    · simp [follow, follow_nil, eq_comm]
  | cons d events ih =>
    rcases chain with _ | ⟨c, chain⟩
    · rfl
    · rw [List.cons_append, follow, follow]
      split
      · rw [ih, List.getElem?_cons_succ]
        split <;> rfl
      · exact ih (c :: chain)

theorem follow_le_length (chain events : List E) : follow chain events ≤ chain.length := by
  induction events using List.reverseRecOn with
  | nil => exact follow_nil chain ▸ Nat.zero_le _
  | append_singleton events e ih =>
    rw [follow_concat]
    split
    · exact (List.getElem?_eq_some_iff.mp ‹_›).1
    · exact ih

/-- **A machine that is a chain.** If in its `k`-th state a machine takes the `k`-th event of the
chain only, it is where the events lead along the chain, and has performed the actions on the
way. -/
theorem processAll_chain {machine : S → E → Option (S × List A)} {chain : List E} (state : ℕ → S)
    (actions : ℕ → List A)
    (hmachine : ∀ k ≤ chain.length, ∀ e, machine (state k) e =
      if chain[k]? = some e then some (state (k + 1), actions k) else none) (events : List E) :
    processAll machine (state 0) events =
      (state (follow chain events), (List.range (follow chain events)).flatMap actions) := by
  refine processAll_invariant (I := fun events done => done = (state (follow chain events),
    (List.range (follow chain events)).flatMap actions)) ?_ ?_ events
  · rw [follow_nil]
    rfl
  · rintro events done e rfl
    rw [process, hmachine _ (follow_le_length chain events), follow_concat]
    split
    · rename_i h
      split at h
      · obtain ⟨rfl, rfl⟩ := Prod.mk.inj (Option.some.inj h)
        rw [if_pos ‹_›, List.range_succ, List.flatMap_append, List.flatMap_singleton]
      · cases h
    · rename_i h
      split at h
      · cases h
      · rw [if_neg ‹_›]

end Statechart
