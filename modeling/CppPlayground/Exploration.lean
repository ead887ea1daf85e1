import Mathlib.Data.Finset.Basic

/-!
# Exploring a graph in depth, down to a level

Vertices are explored depth first from a list of vertices, each one followed from its first
meeting only, and not below a given level. The log keeps every meeting with the depth it
happened at, in order.

* `explore` — the exploration.
* `firstDepth` — the depth of the first meeting with a vertex, which is the one it is
  followed from.
-/

namespace Exploration

universe u

variable {V : Type u} [DecidableEq V]

/-- What has been met so far. -/
structure Log (V : Type u) : Type u where
  /-- the vertices that have been met -/
  handled : Finset V
  /-- all meetings, with their depths -/
  met : List (V × ℕ)

/-- Meet a vertex, and follow it if it is new. -/
def meet (follow : Log V → Log V) (depth : ℕ) (log : Log V) (v : V) : Log V :=
  if v ∈ log.handled then { log with met := log.met ++ [(v, depth)] }
  else follow ⟨insert v log.handled, log.met ++ [(v, depth)]⟩

/-- Meet the vertices of a list at `depth`, and what can be reached from them within
`levels` levels. -/
def explore (succ : V → List V) : (levels depth : ℕ) → List V → Log V → Log V
  | 0, _, _, log => log
  | levels + 1, depth, vs, log =>
    vs.foldl (fun log v => meet (explore succ levels (depth + 1) (succ v)) depth log v) log

/-- All meetings of an exploration. -/
def meetings (succ : V → List V) (levels : ℕ) (vs : List V) : List (V × ℕ) :=
  (explore succ levels 0 vs ⟨∅, []⟩).met

/-- The depth of the first meeting with a vertex. -/
def firstDepth : List (V × ℕ) → V → Option ℕ
  | [], _ => none
  | (w, depth) :: met, v => if w = v then some depth else firstDepth met v

theorem firstDepth_append (met met' : List (V × ℕ)) (v : V) :
    firstDepth (met ++ met') v = (firstDepth met v).or (firstDepth met' v) := by
  induction met with
  | nil => simp [firstDepth]
  | cons p met ih =>
    rw [List.cons_append, firstDepth, firstDepth, ih]
    split <;> rfl

theorem firstDepth_eq_none_iff {met : List (V × ℕ)} {v : V} :
    firstDepth met v = none ↔ v ∉ met.map Prod.fst := by
  induction met with
  | nil => simp [firstDepth]
  | cons p met ih =>
    obtain ⟨w, depth⟩ := p
    by_cases hw : w = v
    · simp [firstDepth, hw]
    · simp [firstDepth, hw, ih, Ne.symm hw]

end Exploration
