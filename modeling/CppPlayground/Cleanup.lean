import Mathlib.Data.Finset.Basic
import Mathlib.Data.Finset.Dedup
import Mathlib.Data.Finset.Disjoint
import Mathlib.Data.List.Nodup

/-!
# Cleanup actions of scopes

In a scope, actions are registered that may have to run when the scope is left. Which of
them are due depends on how it is left: `due outcome kind`. Actions are numbered in the order
in which they are registered, and while an action runs there may be further scopes.

A history tells when control leaves a scope, with the actions that were registered in it, newest
first; when an action runs; and when the scope has been left. `closing` is the history of a
scope that is left as it should be. `Accounts` says that a history accounts for a set of
numbered actions: each was registered in one scope, and those that are due, and
no others, have run once and newest first, between the time control left the scope and the
time it had been left. Histories of scopes one after the other are appended
(`Accounts.append`), and a scope is closed over what happens while its actions run
(`Accounts.close`).
-/

namespace Cleanup

universe u v w

variable {κ : Type u} {ω : Type v}

/-! ## Histories -/

/-- What happens. -/
inductive Event (α : Type w) (ω : Type v) : Type (max w v)
  /-- control leaves a scope in which the actions were registered -/
  | leaves (actions : List α) (outcome : ω)
  /-- an action starts to run -/
  | runs (action : α)
  /-- the scope with the actions has been left -/
  | left (actions : List α)
  deriving DecidableEq, Repr

/-- The event told without the numbers of the actions. -/
def Event.unnumbered : Event (ℕ × κ) ω → Event κ ω
  | .leaves actions outcome => .leaves (actions.map Prod.snd) outcome
  | .runs action => .runs action.2
  | .left actions => .left (actions.map Prod.snd)

def Event.ran : Event (ℕ × κ) ω → Option ℕ
  | .runs action => some action.1
  | .leaves _ _ | .left _ => none

/-- The actions that ran, in order. -/
def ran (history : List (Event (ℕ × κ) ω)) : List ℕ :=
  history.filterMap Event.ran

def Event.registered : Event (ℕ × κ) ω → List ℕ
  | .leaves actions _ => actions.map Prod.fst
  | .runs _ | .left _ => []

/-- The actions of the scopes that control left. -/
def registered (history : List (Event (ℕ × κ) ω)) : List ℕ :=
  history.flatMap Event.registered

@[simp] theorem ran_append (h₁ h₂ : List (Event (ℕ × κ) ω)) : ran (h₁ ++ h₂) = ran h₁ ++ ran h₂ :=
  List.filterMap_append

@[simp] theorem registered_append (h₁ h₂ : List (Event (ℕ × κ) ω)) :
    registered (h₁ ++ h₂) = registered h₁ ++ registered h₂ :=
  List.flatMap_append

theorem mem_registered_of_mem {history : List (Event (ℕ × κ) ω)} {actions : List (ℕ × κ)} {outcome : ω}
    (h : .leaves actions outcome ∈ history) {id : ℕ} (hid : id ∈ actions.map Prod.fst) :
    id ∈ registered history :=
  List.mem_flatMap.mpr ⟨_, h, hid⟩

/-- An element of an appended list is in one of the parts. -/
theorem append_eq_split {α : Type*} {l₁ l₂ before after : List α} {a : α}
    (h : l₁ ++ l₂ = before ++ a :: after) :
    (∃ rest, l₁ = before ++ a :: rest ∧ after = rest ++ l₂) ∨
      ∃ before', before = l₁ ++ before' ∧ l₂ = before' ++ a :: after := by
  rcases List.append_eq_append_iff.mp h with ⟨mid, hbefore, hl₂⟩ | ⟨mid, hl₁, hafter⟩
  · exact .inr ⟨mid, hbefore, hl₂⟩
  · cases mid with
    | nil => exact .inr ⟨[], by simpa using hl₁.symm, by simpa using hafter.symm⟩
    | cons b mid =>
      obtain ⟨rfl, rfl⟩ := List.cons_eq_cons.mp hafter
      exact .inl ⟨mid, hl₁, rfl⟩

theorem eq_of_singleton_split {α : Type*} {before after : List α} {a b : α}
    (h : [a] = before ++ b :: after) : a = b := by
  have hmem : b ∈ [a] := h ▸ List.mem_append_right before List.mem_cons_self
  exact (List.mem_singleton.mp hmem).symm

/-! ## How a scope should be left -/

section Accounts

variable (due : ω → κ → Bool)

/-- Of the actions, those that are due run, in order; each comes with what happens in it. -/
def runsDue (actions : List (κ × List (Event κ ω))) (outcome : ω) : List (Event κ ω) :=
  (actions.filter fun action => due outcome action.1).flatMap fun action =>
    .runs action.1 :: action.2

/-- **A scope is left as it should be.** -/
def closing (actions : List (κ × List (Event κ ω))) (outcome : ω) : List (Event κ ω) :=
  .leaves (actions.map Prod.fst) outcome ::
    (runsDue due actions outcome ++ [.left (actions.map Prod.fst)])

/-! ## Accounts -/

/-- The actions that are due. -/
def dueIds (actions : List (ℕ × κ)) (outcome : ω) : List ℕ :=
  (actions.filter fun action => due outcome action.2).map Prod.fst

/-- The history accounts for the actions in `own`. Of other actions, `foreign` ran. -/
structure Accounts (own : Finset ℕ) (foreign : List ℕ) (history : List (Event (ℕ × κ) ω)) :
    Prop where
  /-- no action is of two scopes -/
  once : (registered history).Nodup
  /-- the actions are those of the scopes that control left -/
  covered : ∀ id, id ∈ registered history ↔ id ∈ own
  others : (ran history).filter (· ∉ own) = foreign
  /-- the actions of a scope are told newest first -/
  order : ∀ actions outcome, .leaves actions outcome ∈ history →
    (actions.map Prod.fst).Pairwise (· > ·)
  /-- **the actions that are due run, once and in that order, while the scope is left**; the
  others do not run, and no action runs at another time -/
  atEnd : ∀ before actions outcome after, history = before ++ .leaves actions outcome :: after →
    ∃ during rest, after = during ++ .left actions :: rest ∧
      (ran during).filter (· ∈ actions.map Prod.fst) = dueIds due actions outcome ∧
      ∀ id ∈ actions.map Prod.fst, id ∉ ran before ∧ id ∉ ran rest

variable {due} {own own' : Finset ℕ} {foreign foreign' : List ℕ}
  {history history' : List (Event (ℕ × κ) ω)}

theorem runsDue_cons (action : κ × List (Event κ ω)) (actions : List (κ × List (Event κ ω)))
    (outcome : ω) : runsDue due (action :: actions) outcome =
      (if due outcome action.1 then .runs action.1 :: action.2 else []) ++
        runsDue due actions outcome := by
  by_cases h : due outcome action.1 = true
  · simp [runsDue, h]
  · simp [runsDue, h]

theorem dueIds_subset {actions : List (ℕ × κ)} {outcome : ω} {id : ℕ}
    (h : id ∈ dueIds due actions outcome) : id ∈ actions.map Prod.fst := by
  obtain ⟨action, haction, rfl⟩ := List.mem_map.mp h
  exact List.mem_map_of_mem (List.mem_filter.mp haction).1

theorem Accounts.nil : Accounts due ∅ [] ([] : List (Event (ℕ × κ) ω)) where
  once := List.nodup_nil
  covered := fun id => by simp [registered]
  others := rfl
  order := nofun
  atEnd := fun before _ _ _ h => absurd h.symm (List.append_ne_nil_of_right_ne_nil before nofun)

/-- An action of a scope outside runs. -/
theorem Accounts.runs (action : ℕ × κ) :
    Accounts due ∅ [action.1] ([.runs action] : List (Event (ℕ × κ) ω)) where
  once := List.nodup_nil
  covered := fun id => by simp [registered, Event.registered]
  others := by simp [ran, Event.ran]
  order := by simp
  atEnd := fun _ _ _ _ h => by cases eq_of_singleton_split h

/-- What ran is own or foreign. -/
theorem Accounts.mem_ran (h : Accounts due own foreign history) {id : ℕ} (hid : id ∈ ran history) :
    id ∈ own ∨ id ∈ foreign := by
  by_cases hown : id ∈ own
  · exact .inl hown
  · exact .inr (h.others ▸ List.mem_filter.mpr ⟨hid, decide_eq_true hown⟩)

theorem Accounts.mem_own (h : Accounts due own foreign history) {actions : List (ℕ × κ)}
    {outcome : ω} (hmem : .leaves actions outcome ∈ history) {id : ℕ}
    (hid : id ∈ actions.map Prod.fst) : id ∈ own :=
  (h.covered id).mp (mem_registered_of_mem hmem hid)

/-- Of actions that are not own, those ran that are foreign. -/
theorem Accounts.filter_ran (h : Accounts due own foreign history) {ids : List ℕ}
    (hids : ∀ id ∈ ids, id ∉ own) :
    (ran history).filter (· ∈ ids) = foreign.filter (· ∈ ids) := by
  rw [← h.others, List.filter_filter]
  refine List.filter_congr fun id _ => ?_
  by_cases hid : id ∈ ids
  · simp only [hid, hids id hid, decide_true, not_false_eq_true, Bool.and_self]
  · simp only [hid, decide_false, Bool.false_and]

/-- **One history after the other.** -/
theorem Accounts.append (h : Accounts due own foreign history)
    (h' : Accounts due own' foreign' history') (hdisj : Disjoint own own')
    (hforeign : ∀ id ∈ foreign, id ∉ own') (hforeign' : ∀ id ∈ foreign', id ∉ own) :
    Accounts due (own ∪ own') (foreign ++ foreign') (history ++ history') := by
  -- an action of one part does not run in the other
  have hnot : ∀ id ∈ own, id ∉ ran history' := by
    intro id hid hran
    rcases h'.mem_ran hran with hown' | hfor'
    · exact Finset.disjoint_left.mp hdisj hid hown'
    · exact hforeign' id hfor' hid
  have hnot' : ∀ id ∈ own', id ∉ ran history := by
    intro id hid hran
    rcases h.mem_ran hran with hown | hfor
    · exact Finset.disjoint_left.mp hdisj hown hid
    · exact hforeign id hfor hid
  refine ⟨?_, ?_, ?_, ?_, ?_⟩
  · rw [registered_append, List.nodup_append]
    refine ⟨h.once, h'.once, ?_⟩
    rintro id hid id' hid' rfl
    exact Finset.disjoint_left.mp hdisj ((h.covered id).mp hid) ((h'.covered id).mp hid')
  · intro id
    rw [registered_append, List.mem_append, Finset.mem_union, h.covered, h'.covered]
  · rw [ran_append, List.filter_append, ← h.others, ← h'.others]
    congr 1
    · refine List.filter_congr fun id hid => ?_
      have hid' : id ∉ own' := fun hown' => hnot' id hown' hid
      simp [hid']
    · refine List.filter_congr fun id hid => ?_
      have hid' : id ∉ own := fun hown => hnot id hown hid
      simp [hid']
  · intro actions outcome hmem
    rcases List.mem_append.mp hmem with hmem | hmem
    · exact h.order actions outcome hmem
    · exact h'.order actions outcome hmem
  · intro before actions outcome after hsplit
    rcases append_eq_split hsplit with ⟨after', hhist, rfl⟩ | ⟨before', rfl, hhist⟩
    · obtain ⟨during, rest, rfl, hdue, houtside⟩ := h.atEnd _ _ _ _ hhist
      refine ⟨during, rest ++ history', by simp, hdue, fun id hid => ?_⟩
      have hown := h.mem_own (hhist ▸ List.mem_append_right _ List.mem_cons_self) hid
      rw [ran_append, List.mem_append, not_or]
      exact ⟨(houtside id hid).1, (houtside id hid).2, hnot id hown⟩
    · obtain ⟨during, rest, rfl, hdue, houtside⟩ := h'.atEnd _ _ _ _ hhist
      refine ⟨during, rest, rfl, hdue, fun id hid => ?_⟩
      have hown := h'.mem_own (hhist ▸ List.mem_append_right _ List.mem_cons_self) hid
      rw [ran_append, List.mem_append, not_or]
      exact ⟨⟨hnot' id hown, (houtside id hid).1⟩, (houtside id hid).2⟩

/-- **A scope is left**: what happened meanwhile is accounted for, and the actions of the
scope ran in it as they are due. -/
theorem Accounts.close {actions : List (ℕ × κ)} {outcome : ω}
    (h : Accounts due own (dueIds due actions outcome) history)
    (hown : ∀ id ∈ actions.map Prod.fst, id ∉ own)
    (horder : (actions.map Prod.fst).Pairwise (· > ·)) :
    Accounts due (own ∪ (actions.map Prod.fst).toFinset) []
      (.leaves actions outcome :: (history ++ [.left actions])) := by
  have hreg : registered (.leaves actions outcome :: (history ++ [.left actions])) =
      actions.map Prod.fst ++ registered history := by
    simp [registered, Event.registered]
  have hran : ran (.leaves actions outcome :: (history ++ [.left actions])) = ran history := by
    simp [ran, Event.ran, List.filterMap_cons]
  refine ⟨?_, ?_, ?_, ?_, ?_⟩
  · rw [hreg, List.nodup_append]
    refine ⟨horder.imp fun hgt => Nat.ne_of_gt hgt, h.once, ?_⟩
    rintro id hid id' hid' rfl
    exact hown id hid ((h.covered id).mp hid')
  · intro id
    rw [hreg, List.mem_append, Finset.mem_union, h.covered, List.mem_toFinset]
    exact or_comm
  · rw [hran]
    refine List.filter_eq_nil_iff.mpr fun id hid => ?_
    rcases h.mem_ran hid with hmem | hmem
    · simp [hmem]
    · have hid' : id ∈ (actions.map Prod.fst).toFinset :=
        List.mem_toFinset.mpr (dueIds_subset hmem)
      simp only [Finset.mem_union, hid', or_true, not_true_eq_false, decide_false,
        Bool.false_eq_true, not_false_eq_true]
  · intro actions' outcome' hmem
    rcases List.mem_cons.mp hmem with heq | hmem
    · cases heq
      exact horder
    · rcases List.mem_append.mp hmem with hmem | hmem
      · exact h.order actions' outcome' hmem
      · cases List.mem_singleton.mp hmem
  · intro before actions' outcome' after hsplit
    cases before with
    | nil =>
      obtain ⟨heq, rfl⟩ := List.cons_eq_cons.mp hsplit
      cases heq
      refine ⟨history, [], rfl, ?_, fun id _ => ⟨List.not_mem_nil, List.not_mem_nil⟩⟩
      rw [h.filter_ran hown]
      exact List.filter_eq_self.mpr fun id hid => decide_eq_true (dueIds_subset hid)
    | cons e before =>
      obtain ⟨rfl, hlater⟩ := List.cons_eq_cons.mp hsplit
      rcases append_eq_split hlater with ⟨after', hhist, rfl⟩ | ⟨before', rfl, hlast⟩
      · obtain ⟨during, rest, rfl, hdue, houtside⟩ := h.atEnd _ _ _ _ hhist
        refine ⟨during, rest ++ [.left actions], by simp, hdue, fun id hid => ?_⟩
        obtain ⟨hbefore, hrest⟩ := houtside id hid
        refine ⟨by simpa [ran, Event.ran, List.filterMap_cons] using hbefore, ?_⟩
        rw [ran_append, List.mem_append, not_or]
        exact ⟨hrest, List.not_mem_nil⟩
      · cases eq_of_singleton_split hlast

end Accounts

end Cleanup
