import CppPlayground.Nesting
import CppPlayground.Exploration

/-!
# Dumping state machines as UML

`UMLDumper` (`sml_examples/src/dump_uml.cpp`) prints the transition tables of a state
machine and of the machines nested in it. A transition that leads to a sub-machine prints
the block of that machine before its own line, unless the machine has been handled before.
Tables below `max_depth_` are not printed.

Machines are given by their base names, which are different for different machines: a
hierarchy has a table for each name. The history `met` says which sub-machines the printed
tables led to, at which depth, in order; it is the log of an `Exploration`
(`dump_met`).
-/

namespace CppPlayground

namespace UmlDumper

open Nesting (Token)

/-! ## State machines -/

/-- Where a transition leads to. -/
inductive Target
  /-- `sml::front::internal`: it stays where it is -/
  | internal
  /-- a plain state -/
  | state (name : String)
  /-- a sub-machine, given by its base name -/
  | sub (name : String)
  deriving DecidableEq, Repr

/-- What a transition reacts to. -/
inductive Event
  | anonymous
  | onEntry
  | onExit
  | event (name : String)
  deriving DecidableEq, Repr

/-- A transition, with the names of its parts as they are printed. -/
structure Transition where
  src : String
  dst : Target
  /-- `T::initial` -/
  initial : Bool
  event : Event
  /-- `none` is `sml::front::always` -/
  guard : Option String
  /-- `none` is `sml::front::none` -/
  action : Option String
  deriving DecidableEq, Repr

/-- A transition table. There is no machine without an initial state. -/
structure Table where
  transitions : List Transition
  hasInitial : ∃ t ∈ transitions, t.initial = true

/-- The tables of the sub-machines. -/
def Hierarchy : Type := String → Table

/-! ## The output -/

/-- A line inside a block. -/
inductive Line
  /-- `[*] --> src`, after `--` if it is not the first one of its table -/
  | initial (separated : Bool) (src : String)
  | transition (t : Transition)
  deriving DecidableEq, Repr

/-- The name of a target; the terminal state is shown as `[*]`. -/
def Target.text : Target → String
  | internal => "internal"
  | state name => if name = "terminate" then "[*]" else name
  | sub name => name

/-- The text of an event. -/
def Event.text : Event → String
  | anonymous => "anonymous"
  | onEntry => "on_entry"
  | onExit => "on_exit"
  | event name => name

/-- The line of a transition. -/
def Transition.text (t : Transition) : String :=
  t.src ++
  (if t.dst ≠ .internal then " --> " ++ t.dst.text else "") ++
  (if t.event ≠ .anonymous ∨ t.guard.isSome ∨ t.action.isSome then " :" else "") ++
  (if t.event ≠ .anonymous then " " ++ t.event.text else "") ++
  (match t.guard with | some name => " [" ++ name ++ "]" | none => "") ++
  (match t.action with | some names => " / " ++ names | none => "") ++ "\n"

/-- The text of a piece of output. -/
def text : Token String Line → String
  | .opened name => "\nstate " ++ name ++ " \x7b\n"
  | .closed => "\x7d\n"
  | .line (.initial separated src) =>
    (if separated then "--\n" else "") ++ "[*] --> " ++ src ++ "\n"
  | .line (.transition t) => t.text

/-! ## The dumper -/

/-- The dumper at work. -/
structure Dump where
  /-- `substates_handled` -/
  handled : Finset String
  /-- what has been printed -/
  out : List (Token String Line)
  /-- history: the sub-machines that transitions led to, with the depth of the table -/
  met : List (String × ℕ)

/-- Print something. -/
def Dump.put (d : Dump) (token : Token String Line) : Dump :=
  { d with out := d.out ++ [token] }

/-- `dump_transition`, the line of an initial state; the number is `starts`. -/
def dumpInitial (t : Transition) (d : Dump) (starts : ℕ) : Dump × ℕ :=
  if t.initial then (d.put (.line (.initial (starts ≠ 0) t.src)), starts + 1)
  else (d, starts)

/-- `dump_transition`, the block of a sub-machine; `follow` dumps its table. -/
def dumpSub (follow : Dump → Dump) (depth : ℕ) (name : String) (d : Dump) : Dump :=
  if name ∈ d.handled then { d with met := d.met ++ [(name, depth)] }
  else
    (follow ⟨insert name d.handled, d.out ++ [.opened name], d.met ++ [(name, depth)]⟩).put
      .closed

/-- `dump_transition`, the part for a destination that is a sub-machine. -/
def dumpTarget (follow : String → Dump → Dump) (depth : ℕ) (dst : Target) (d : Dump) : Dump :=
  match dst with
  | .sub name => dumpSub (follow name) depth name d
  | .internal | .state _ => d

/-- `dump_transition`. -/
def dumpTransition (follow : String → Dump → Dump) (depth : ℕ) (s : Dump × ℕ)
    (t : Transition) : Dump × ℕ :=
  let (d, starts) := dumpInitial t s.1 s.2
  ((dumpTarget follow depth t.dst d).put (.line (.transition t)), starts)

/-- `dump_transitions` when `levels` more levels may be printed. -/
def dumpLevels (h : Hierarchy) : (levels depth : ℕ) → List Transition → Dump → Dump
  | 0, _, _, d => d
  | levels + 1, depth, table, d =>
    (table.foldl (dumpTransition
      (fun name => dumpLevels h levels (depth + 1) (h name).transitions) depth) (d, 0)).1

/-- `dump_transitions`. -/
def dumpTransitions (h : Hierarchy) (maxDepth depth : ℕ) (table : List Transition) (d : Dump) :
    Dump :=
  dumpLevels h (maxDepth + 1 - depth) depth table d

/-- `dump_transitions` as it is written in the source. -/
theorem dumpTransitions_eq (h : Hierarchy) (maxDepth depth : ℕ) (table : List Transition)
    (d : Dump) :
    dumpTransitions h maxDepth depth table d =
      if depth > maxDepth then d
      else (table.foldl (dumpTransition
        (fun name => dumpTransitions h maxDepth (depth + 1) (h name).transitions) depth)
        (d, 0)).1 := by
  unfold dumpTransitions
  split
  case isTrue hdepth => rw [show maxDepth + 1 - depth = 0 by omega, dumpLevels]
  case isFalse hdepth =>
    rw [show maxDepth + 1 - depth = (maxDepth + 1 - (depth + 1)) + 1 by omega, dumpLevels]

/-- `dump`, without the frame. -/
def dump (h : Hierarchy) (root : Table) (maxDepth : ℕ) : Dump :=
  dumpTransitions h maxDepth 0 root.transitions ⟨∅, [], []⟩

/-- The text that `dump` prints. -/
def dumpText (h : Hierarchy) (root : Table) (maxDepth : ℕ) : String :=
  "@startuml\n\n" ++ String.join ((dump h root maxDepth).out.map text) ++ "\n@enduml\n"

end UmlDumper

end CppPlayground
