import CppPlayground.UmlDumper
import Mathlib.Tactic.SplitIfs

/-!
# One block for each sub-machine

A sub-machine gets its block at the first transition that leads to it, and is entered into
`substates_handled` there and then. If that transition is in a table at depth `max_depth_`,
the table of the sub-machine is below the limit and its block remains empty; and no other
transition makes up for it, even one from a table higher up.

So a sub-machine that a table above the limit leads to is dumped as it should exactly if
the *first* table that leads to it is above the limit as well (`dumped_once_iff`). Which one
is the first is decided by the order of the exploration.
-/

namespace CppPlayground

namespace UmlDumper

open Nesting (Token Body HasBlock contents)
open Exploration (firstDepth firstDepth_append firstDepth_eq_none_iff explore meetings)

/-! ## The dumper explores the hierarchy -/

/-- The sub-machine a transition leads to. -/
def Transition.sub (t : Transition) : Option String :=
  match t.dst with
  | .sub name => some name
  | .internal | .state _ => none

/-- The sub-machines a table leads to, in order. -/
def subs (table : List Transition) : List String :=
  table.filterMap Transition.sub

theorem subs_cons (t : Transition) (table : List Transition) :
    subs (t :: table) = t.sub.toList ++ subs table := by
  unfold subs
  cases ht : t.sub <;> simp [ht]

/-- The sub-machines the table of a sub-machine leads to. -/
def Hierarchy.succ (h : Hierarchy) (name : String) : List String :=
  subs (h name).transitions

/-- What a dump has in common with an exploration. -/
def Dump.log (d : Dump) : Exploration.Log String := ⟨d.handled, d.met⟩

@[simp] theorem Dump.log_put (d : Dump) (token : Token String Line) :
    (d.put token).log = d.log := rfl

theorem dumpInitial_log (t : Transition) (d : Dump) (starts : ℕ) :
    (dumpInitial t d starts).1.log = d.log := by
  unfold dumpInitial
  split <;> rfl

section Log

variable {follow : String → Dump → Dump}
  {follow' : String → Exploration.Log String → Exploration.Log String}
  (hfollow : ∀ name d, (follow name d).log = follow' name d.log)

include hfollow

theorem dumpSub_log (depth : ℕ) (name : String) (d : Dump) :
    (dumpSub (follow name) depth name d).log =
      Exploration.meet (follow' name) depth d.log name := by
  unfold dumpSub Exploration.meet
  by_cases hname : name ∈ d.handled
  · rw [if_pos hname, if_pos (show name ∈ d.log.handled from hname)]
    rfl
  · rw [if_neg hname, if_neg (show name ∉ d.log.handled from hname)]
    exact hfollow name _

/-- The rows of a table meet the sub-machines they lead to. -/
theorem foldl_dumpTransition_log (depth : ℕ) (table : List Transition) (s : Dump × ℕ) :
    (table.foldl (dumpTransition follow depth) s).1.log =
      (subs table).foldl (fun log name => Exploration.meet (follow' name) depth log name)
        s.1.log := by
  induction table generalizing s with
  | nil => rfl
  | cons t table ih =>
    rw [List.foldl_cons, ih, subs_cons, List.foldl_append]
    congr 1
    simp only [dumpTransition, dumpTarget, Dump.log_put]
    cases ht : t.dst with
    | sub name =>
      rw [dumpSub_log hfollow, dumpInitial_log]
      simp [Transition.sub, ht]
    | internal | state =>
      rw [dumpInitial_log]
      simp [Transition.sub, ht]

end Log

theorem dumpLevels_log (h : Hierarchy) (levels depth : ℕ) (table : List Transition)
    (d : Dump) :
    (dumpLevels h levels depth table d).log = explore h.succ levels depth (subs table) d.log := by
  induction levels generalizing depth table d with
  | zero => rfl
  | succ levels ih =>
    rw [dumpLevels, explore]
    exact foldl_dumpTransition_log (fun name d => ih (depth + 1) (h name).transitions d) depth
      table (d, 0)

/-- **A dump is an exploration** of the hierarchy down to the level `max_depth_`. -/
theorem dump_met (h : Hierarchy) (root : Table) (maxDepth : ℕ) :
    (dump h root maxDepth).met = meetings h.succ (maxDepth + 1) (subs root.transitions) := by
  have hlog := dumpLevels_log h (maxDepth + 1) 0 root.transitions ⟨∅, [], []⟩
  exact congrArg Exploration.Log.met hlog

/-! ## What is printed -/

/-- The transitions among the lines. -/
def transitionsOf (lines : List Line) : List Transition :=
  lines.filterMap fun
    | .transition t => some t
    | .initial _ _ => none

/-- The table of a sub-machine as it is printed when the sub-machine is met at `depth`. -/
def printedTable (h : Hierarchy) (maxDepth depth : ℕ) (name : String) : List Transition :=
  if depth < maxDepth then (h name).transitions else []

/-- **From `d` to `d'` the tokens `new` have been printed**, which add `lines` to the block
they are in, and the sub-machines in `met` have been met. Each sub-machine that was not
handled before gets one block, with its table as it is printed at the first meeting. -/
structure Printed (h : Hierarchy) (maxDepth : ℕ) (d d' : Dump)
    (new : List (Token String Line)) (met : List (String × ℕ)) (lines : List Line) : Prop where
  out : d'.out = d.out ++ new
  meets : d'.met = d.met ++ met
  handled : ∀ name, name ∈ d'.handled ↔ name ∈ d.handled ∨ name ∈ met.map Prod.fst
  body : Body new lines
  count : ∀ name, new.count (.opened name) =
    if name ∈ d'.handled ∧ name ∉ d.handled then 1 else 0
  blocks : ∀ name, name ∈ d'.handled → name ∉ d.handled → ∃ depth lines,
    firstDepth met name = some depth ∧ HasBlock new name lines ∧
    transitionsOf lines = printedTable h maxDepth depth name

namespace Printed

variable {h : Hierarchy} {maxDepth : ℕ} {d d' d'' : Dump}
  {new new' : List (Token String Line)} {met met' : List (String × ℕ)} {lines lines' : List Line}

theorem refl : Printed h maxDepth d d [] [] [] where
  out := (List.append_nil _).symm
  meets := (List.append_nil _).symm
  handled := by simp
  body := .nil
  count := by simp
  blocks := fun _ hin hnot => absurd hin hnot

theorem line (l : Line) : Printed h maxDepth d (d.put (.line l)) [.line l] [] [l] where
  out := rfl
  meets := (List.append_nil _).symm
  handled := by simp [Dump.put]
  body := .line l
  count := by simp [Dump.put]
  blocks := fun _ hin hnot => absurd hin hnot

/-- Meeting a sub-machine that has been handled. -/
theorem again {name : String} (hname : name ∈ d.handled) (depth : ℕ) :
    Printed h maxDepth d { d with met := d.met ++ [(name, depth)] } [] [(name, depth)] [] where
  out := (List.append_nil _).symm
  meets := rfl
  handled := by
    intro other
    simp only [List.map_cons, List.map_nil, List.mem_singleton]
    exact ⟨.inl, fun hor => hor.elim id fun heq => heq ▸ hname⟩
  body := .nil
  count := by simp
  blocks := fun _ hin hnot => absurd hin hnot

theorem subset (hp : Printed h maxDepth d d' new met lines) {name : String}
    (hname : name ∈ d.handled) : name ∈ d'.handled :=
  (hp.handled name).mpr (.inl hname)

theorem trans (hp : Printed h maxDepth d d' new met lines)
    (hp' : Printed h maxDepth d' d'' new' met' lines') :
    Printed h maxDepth d d'' (new ++ new') (met ++ met') (lines ++ lines') where
  out := by rw [hp'.out, hp.out, List.append_assoc]
  meets := by rw [hp'.meets, hp.meets, List.append_assoc]
  handled := fun name => by
    rw [hp'.handled, hp.handled, List.map_append, List.mem_append, or_assoc]
  body := hp.body.append hp'.body
  count := fun name => by
    rw [List.count_append, hp.count, hp'.count]
    have hsub : name ∈ d.handled → name ∈ d'.handled := hp.subset
    have hsub' : name ∈ d'.handled → name ∈ d''.handled := hp'.subset
    by_cases h₁ : name ∈ d.handled <;> by_cases h₂ : name ∈ d'.handled <;>
      by_cases h₃ : name ∈ d''.handled <;> simp_all
  blocks := fun name hin hnot => by
    rw [firstDepth_append]
    by_cases hmid : name ∈ d'.handled
    · obtain ⟨depth, lines, hfirst, hblock, htable⟩ := hp.blocks name hmid hnot
      exact ⟨depth, lines, by rw [hfirst]; rfl, hblock.append_right new', htable⟩
    · obtain ⟨depth, lines, hfirst, hblock, htable⟩ := hp'.blocks name hin hmid
      have hnone : firstDepth met name = none := by
        rw [firstDepth_eq_none_iff]
        exact fun hmet => hmid ((hp.handled name).mpr (.inr hmet))
      exact ⟨depth, lines, by rw [hnone]; exact hfirst, hblock.append_left new, htable⟩

/-- The block of a sub-machine that is met for the first time. -/
theorem block {name : String} (hname : name ∉ d.handled) (depth : ℕ)
    (hp : Printed h maxDepth
      ⟨insert name d.handled, d.out ++ [.opened name], d.met ++ [(name, depth)]⟩ d' new met lines)
    (htable : transitionsOf lines = printedTable h maxDepth depth name) :
    Printed h maxDepth d (d'.put .closed) (.opened name :: (new ++ [.closed]))
      ((name, depth) :: met) [] where
  out := by simp [Dump.put, hp.out]
  meets := by simp [Dump.put, hp.meets]
  handled := fun other => by
    have hother := hp.handled other
    simp only [Finset.mem_insert] at hother
    simp only [Dump.put, hother, List.map_cons, List.mem_cons]
    tauto
  body := hp.body.block name
  count := fun other => by
    rw [List.count_cons, List.count_append, hp.count other]
    by_cases hother : other = name
    · have hin : name ∈ d'.handled := hp.subset (Finset.mem_insert_self ..)
      simp [Dump.put, hother, hin, hname]
    · have hne : Token.opened name ≠ (.opened other : Token String Line) := by
        simpa using Ne.symm hother
      simp only [List.count_singleton, beq_iff_eq, reduceCtorEq, hne, if_false, Nat.add_zero]
      exact if_congr (by simp [Dump.put, hother]) rfl rfl
  blocks := fun other hin hnot => by
    by_cases hother : other = name
    · subst hother
      exact ⟨depth, lines, by simp [firstDepth], .of_body hp.body _, htable⟩
    · obtain ⟨depth', lines', hfirst, hblock, htable'⟩ :=
        hp.blocks other hin (by simp [hother, hnot])
      refine ⟨depth', lines', ?_, ?_, htable'⟩
      · rw [firstDepth, if_neg (Ne.symm hother), hfirst]
      · exact (hblock.append_right [.closed]).append_left [.opened name]

end Printed

/-! ## What the functions print -/

/-- Something with these transitions has been printed from `d` to `d'`. -/
def Prints (h : Hierarchy) (maxDepth : ℕ) (d d' : Dump) (ts : List Transition) : Prop :=
  ∃ new met lines, Printed h maxDepth d d' new met lines ∧ transitionsOf lines = ts

section Prints

variable {h : Hierarchy} {maxDepth : ℕ} {d d' d'' : Dump} {ts ts' : List Transition}

theorem Prints.trans (hp : Prints h maxDepth d d' ts) (hp' : Prints h maxDepth d' d'' ts') :
    Prints h maxDepth d d'' (ts ++ ts') := by
  obtain ⟨new, met, lines, hprinted, rfl⟩ := hp
  obtain ⟨new', met', lines', hprinted', rfl⟩ := hp'
  exact ⟨_, _, _, hprinted.trans hprinted', List.filterMap_append⟩

theorem dumpInitial_prints (t : Transition) (d : Dump) (starts : ℕ) :
    Prints h maxDepth d (dumpInitial t d starts).1 [] := by
  unfold dumpInitial
  split
  · exact ⟨_, _, _, .line _, rfl⟩
  · exact ⟨_, _, _, .refl, rfl⟩

variable {follow : String → Dump → Dump} {depth : ℕ}
  (hfollow : ∀ name d, Prints h maxDepth d (follow name d) (printedTable h maxDepth depth name))

include hfollow

theorem dumpTarget_prints (dst : Target) (d : Dump) :
    Prints h maxDepth d (dumpTarget follow depth dst d) [] := by
  cases dst with
  | internal | state => exact ⟨_, _, _, .refl, rfl⟩
  | sub name =>
    rw [dumpTarget, dumpSub]
    by_cases hname : name ∈ d.handled
    · rw [if_pos hname]
      exact ⟨_, _, _, .again hname depth, rfl⟩
    · rw [if_neg hname]
      obtain ⟨new, met, lines, hprinted, htable⟩ := hfollow name
        ⟨insert name d.handled, d.out ++ [.opened name], d.met ++ [(name, depth)]⟩
      exact ⟨_, _, _, .block hname depth hprinted htable, rfl⟩

theorem dumpTransition_prints (s : Dump × ℕ) (t : Transition) :
    Prints h maxDepth s.1 (dumpTransition follow depth s t).1 [t] := by
  have hinitial : Prints h maxDepth s.1 (dumpInitial t s.1 s.2).1 [] :=
    dumpInitial_prints t s.1 s.2
  have htarget := dumpTarget_prints hfollow t.dst (dumpInitial t s.1 s.2).1
  exact (hinitial.trans htarget).trans ⟨_, _, _, .line (.transition t), rfl⟩

theorem foldl_dumpTransition_prints (table : List Transition) (s : Dump × ℕ) :
    Prints h maxDepth s.1 (table.foldl (dumpTransition follow depth) s).1 table := by
  induction table generalizing s with
  | nil => exact ⟨_, _, _, .refl, rfl⟩
  | cons t table ih => exact (dumpTransition_prints hfollow s t).trans (ih _)

end Prints

/-- `dump_transitions` prints the table, unless it is below the limit. -/
theorem dumpLevels_prints (h : Hierarchy) {maxDepth levels depth : ℕ}
    (hlevels : depth + levels = maxDepth + 1) (table : List Transition) (d : Dump) :
    Prints h maxDepth d (dumpLevels h levels depth table d) (if levels = 0 then [] else table) := by
  induction levels generalizing depth table d with
  | zero => exact ⟨_, _, _, .refl, rfl⟩
  | succ levels ih =>
    rw [dumpLevels, if_neg (Nat.succ_ne_zero levels)]
    refine foldl_dumpTransition_prints (fun name d => ?_) table (d, 0)
    have hsub := ih (show depth + 1 + levels = maxDepth + 1 by omega) (h name).transitions d
    have hcut : (if levels = 0 then [] else (h name).transitions) =
        printedTable h maxDepth depth name := by
      unfold printedTable
      split_ifs <;> first | rfl | omega
    rwa [hcut] at hsub

/-! ## One dump per sub-machine -/

/-- The output contains one block with this name, and the transitions printed in it are
those of the table. -/
def DumpedOnce (out : List (Token String Line)) (name : String) (table : List Transition) :
    Prop :=
  out.count (.opened name) = 1 ∧
    ∃ before rest, out = before ++ .opened name :: rest ∧ transitionsOf (contents 0 rest) = table

/-- A sub-machine is dumped as it should exactly if it is met above the limit first. -/
theorem dumpedOnce_iff_first (h : Hierarchy) (root : Table) (maxDepth : ℕ) {name : String}
    (hmet : name ∈ (dump h root maxDepth).met.map Prod.fst) :
    DumpedOnce (dump h root maxDepth).out name (h name).transitions ↔
      ∃ depth < maxDepth, firstDepth (dump h root maxDepth).met name = some depth := by
  obtain ⟨new, met, lines, hprinted, -⟩ : Prints h maxDepth ⟨∅, [], []⟩ (dump h root maxDepth) _ :=
    dumpLevels_prints h (Nat.zero_add _) root.transitions ⟨∅, [], []⟩
  have hout : (dump h root maxDepth).out = new := hprinted.out
  have hmeets : (dump h root maxDepth).met = met := hprinted.meets
  rw [hmeets] at hmet
  have hin : name ∈ (dump h root maxDepth).handled := (hprinted.handled name).mpr (.inr hmet)
  have hone : new.count (.opened name) = 1 := by simp [hprinted.count, hin]
  obtain ⟨depth, lines, hfirst, hblock, htable⟩ := hprinted.blocks name hin (by simp)
  rw [hout, hmeets, hfirst]
  constructor
  · rintro ⟨-, before, rest, hnew, hrest⟩
    refine ⟨depth, ?_, rfl⟩
    rw [hblock.contents_eq hone hnew, htable, printedTable] at hrest
    -- the block of a table below the limit is empty, and no table is
    by_contra hdepth
    rw [if_neg hdepth] at hrest
    obtain ⟨t, ht, -⟩ := (h name).hasInitial
    rw [← hrest] at ht
    cases ht
  · rintro ⟨depth', hdepth, heq⟩
    obtain rfl := Option.some.inj heq
    obtain ⟨before, rest, hnew, hrest⟩ := hblock.exists_contents
    refine ⟨hone, before, rest, hnew, ?_⟩
    rw [hrest, htable, printedTable, if_pos hdepth]

/-- In the order of the exploration, no sub-machine that a table above the limit leads to
is met at the limit first. -/
def Orderly (h : Hierarchy) (root : Table) (maxDepth : ℕ) : Prop :=
  ∀ name depth, (name, depth) ∈ meetings h.succ (maxDepth + 1) (subs root.transitions) →
    depth < maxDepth → ∃ first < maxDepth,
      firstDepth (meetings h.succ (maxDepth + 1) (subs root.transitions)) name = some first

/-- **Each sub-machine is dumped once, in an orderly hierarchy and only there.** For every
hierarchy and every limit: all sub-machines that the tables dumped above the limit lead to
have exactly one block in the output, with one line for each transition of their tables,
exactly if none of them is met first in a table at the limit. -/
theorem dumped_once_iff (h : Hierarchy) (root : Table) (maxDepth : ℕ) :
    (∀ name depth, (name, depth) ∈ (dump h root maxDepth).met → depth < maxDepth →
      DumpedOnce (dump h root maxDepth).out name (h name).transitions) ↔
    Orderly h root maxDepth := by
  rw [Orderly, ← dump_met]
  refine forall₂_congr fun name depth => forall₂_congr fun hmet _ => ?_
  exact dumpedOnce_iff_first h root maxDepth (List.mem_map_of_mem hmet)

/-! ## A shared sub-machine -/

/-- An initial transition without event, guard and action. -/
def plain (src : String) (dst : Target) : Transition where
  src := src
  dst := dst
  initial := true
  event := .anonymous
  guard := none
  action := none

/-- `A` leads to `B`, all others to a plain state. -/
def shared (name : String) : Table where
  transitions := [plain "idle" (if name = "A" then .sub "B" else .state "end")]
  hasInitial := ⟨_, List.mem_singleton_self _, rfl⟩

/-- The outermost machine leads to `A`, and then to `B`. -/
def sharedRoot : Table where
  transitions := [plain "idle" (.sub "A"), plain "idle" (.sub "B")]
  hasInitial := ⟨_, List.mem_cons_self .., rfl⟩

/-- **The block of a shared sub-machine may be empty**: `B` is met in the table of `A`, at
the limit, before it is met in the outermost one. -/
theorem shared_not_dumped :
    (dump shared sharedRoot 1).met = [("A", 0), ("B", 1), ("B", 0)] ∧
    (dump shared sharedRoot 1).out =
      [.line (.initial false "idle"),
        .opened "A",
          .line (.initial false "idle"),
          .opened "B", .closed,
          .line (.transition (plain "idle" (.sub "B"))),
        .closed,
        .line (.transition (plain "idle" (.sub "A"))),
        .line (.initial true "idle"),
        .line (.transition (plain "idle" (.sub "B")))] ∧
    ¬ DumpedOnce (dump shared sharedRoot 1).out "B" (shared "B").transitions := by
  have hmet : (dump shared sharedRoot 1).met = [("A", 0), ("B", 1), ("B", 0)] := by
    decide +kernel
  refine ⟨hmet, by decide +kernel, ?_⟩
  rw [dumpedOnce_iff_first shared sharedRoot 1 (by rw [hmet]; decide), hmet]
  rintro ⟨depth, hdepth, hfirst⟩
  obtain rfl : 1 = depth := Option.some.inj hfirst
  omega

end UmlDumper

end CppPlayground
