import CppPlayground.Statechart

/-!
# The state machines of the SML examples

Three programs of `sml_examples/src` build state machines from transition tables and send them
events: the end of a TCP connection (`hello_world.cpp`), a machine with a sub-machine whose states
are printed (`get_current_states_name.cpp`), and one in which both the machine and its sub-machine
have a transition for the same event (`child_parent_events.cpp`). Each program tries one or two
sequences of events. Here is where the machines are after any sequence.
-/

namespace CppPlayground

namespace Sml

open Statechart

/-! ## The end of a connection -/

namespace HelloWorld

inductive State
  | established
  | finWait1
  | finWait2
  | timedWait
  /-- `X` -/
  | terminated
  deriving DecidableEq, Repr

inductive Event
  | release
  | ack
  | fin
  | timeout
  deriving DecidableEq, Repr

inductive Act
  | sendFin
  | sendAck
  deriving DecidableEq, Repr

/-- `event<..>`, without a guard. -/
def on (event : Event) (e : Event) : Bool := decide (e = event)

def isAckValid (_ : Event) : Bool := true

def isFinValid (_ : Event) : Bool := true

/-- `hello_world`. -/
def table : List (Transition State Event Act) :=
  [⟨.established, on .release, [.sendFin], .finWait1⟩,
   ⟨.finWait1, fun e => on .ack e && isAckValid e, [], .finWait2⟩,
   ⟨.finWait2, fun e => on .fin e && isFinValid e, [.sendAck], .timedWait⟩,
   ⟨.timedWait, on .timeout, [.sendAck], .terminated⟩]

/-- The events that lead to the end. -/
def chain : List Event := [.release, .ack, .fin, .timeout]

def stateAt : ℕ → State
  | 0 => .established
  | 1 => .finWait1
  | 2 => .finWait2
  | 3 => .timedWait
  | _ => .terminated

def actionsAt : ℕ → List Act
  | 0 => [.sendFin]
  | 1 => []
  | _ => [.sendAck]

theorem react_table {k : ℕ} (hk : k ≤ chain.length) (e : Event) :
    react table (stateAt k) e =
      if chain[k]? = some e then some (stateAt (k + 1), actionsAt k) else none := by
  rcases k with _ | _ | _ | _ | _ | k
  · cases e <;> rfl
  · cases e <;> rfl
  · cases e <;> rfl
  · cases e <;> rfl
  · cases e <;> rfl
  · exact absurd hk (by simp [chain])

/-- **The connection ends step by step.** After any events the machine is in the state that lies
as many steps along `release`, `ack`, `fin`, `timeout` as these have come in this order, whatever
came in between, and it has performed the actions of these steps, each once. -/
theorem process_helloWorld (events : List Event) :
    ∃ k ≤ 4, (∀ n ≤ 4, n ≤ k ↔ (chain.take n).Sublist events) ∧
      processAll (react table) .established events =
        (stateAt k, (List.range k).flatMap actionsAt) := by
  refine ⟨follow chain events, follow_le_length chain events, fun n hn => ?_, ?_⟩
  · exact le_follow_iff hn events
  · exact processAll_chain stateAt actionsAt (fun k hk e => react_table hk e) events

end HelloWorld

/-! ## A machine with a sub-machine -/

namespace CurrentStatesName

inductive Event
  | e1
  | e2
  | e3
  | e4
  | e5
  deriving DecidableEq, Repr

/-- The states of `sub`. -/
inductive SubState
  | idle
  | sub1
  | terminated
  deriving DecidableEq, Repr

/-- The states of `composite`. -/
inductive State
  | idle
  | s1
  /-- `state<sub>` -/
  | sub
  | terminated
  deriving DecidableEq, Repr

def on (event : Event) (e : Event) : Bool := decide (e = event)

/-- `sub`; the tables have no actions. -/
def subTable : List (Transition SubState Event Unit) :=
  [⟨.idle, on .e3, [], .sub1⟩, ⟨.sub1, on .e4, [], .terminated⟩]

/-- `composite`. -/
def table : List (Transition State Event Unit) :=
  [⟨.idle, on .e1, [], .s1⟩, ⟨.s1, on .e2, [], .sub⟩, ⟨.sub, on .e5, [], .terminated⟩]

def State.isSub (s : State) : Bool := decide (s = .sub)

/-- `sm<composite>`. -/
def composite : State × SubState → Event → Option ((State × SubState) × List Unit) :=
  nest State.isSub (react table) SubState.idle (react subTable)

def SubState.name : SubState → String
  | .idle => "idle"
  | .sub1 => "sub1"
  | .terminated => "terminate"

/-- `get_current_states_name`: the visitor goes on into the sub-machine. -/
def getCurrentStatesName (st : State × SubState) : String :=
  match st.1 with
  | .idle => "idle"
  | .s1 => "s1"
  | .sub => "sub" ++ ":" ++ st.2.name
  | .terminated => "terminate"

/-- The events that lead through the machine, -/
def outerChain : List Event := [.e1, .e2, .e5]

/-- and those that lead through the sub-machine. -/
def innerChain : List Event := [.e1, .e2, .e3, .e4]

/-- Where the machine is, from how far it has come on both ways. -/
inductive Where : ℕ → ℕ → State × SubState → Prop
  | idle (t : SubState) : Where 0 0 (.idle, t)
  | s1 (t : SubState) : Where 1 1 (.s1, t)
  | subIdle : Where 2 2 (.sub, .idle)
  | sub1 : Where 2 3 (.sub, .sub1)
  | subEnd : Where 2 4 (.sub, .terminated)
  | ended (k : ℕ) (t : SubState) : Where 3 k (.terminated, t)

theorem where_process {i k : ℕ} {done : (State × SubState) × List Unit} (h : Where i k done.1)
    (e : Event) :
    Where (if outerChain[i]? = some e then i + 1 else i)
      (if innerChain[k]? = some e then k + 1 else k) (process composite done e).1 := by
  obtain ⟨st, actions⟩ := done
  cases h with
  | idle t => cases e <;> first | exact .idle t | exact .s1 t
  | s1 t => cases e <;> first | exact .s1 t | exact .subIdle
  | subIdle => cases e <;> first | exact .subIdle | exact .sub1 | exact .ended _ _
  | sub1 => cases e <;> first | exact .sub1 | exact .subEnd | exact .ended _ _
  | subEnd => cases e <;> first | exact .subEnd | exact .ended _ _
  | ended k t => cases e <;> exact .ended _ _

theorem where_processAll (events : List Event) :
    Where (follow outerChain events) (follow innerChain events)
      (processAll composite (.idle, .idle) events).1 := by
  refine processAll_invariant (I := fun events done =>
    Where (follow outerChain events) (follow innerChain events) done.1) ?_ ?_ events
  · exact .idle .idle
  · intro events done e h
    rw [follow_concat, follow_concat]
    exact where_process h e

/-- What is printed along the inner way. -/
def nameAt : ℕ → String
  | 0 => "idle"
  | 1 => "s1"
  | 2 => "sub:idle"
  | 3 => "sub:sub1"
  | _ => "sub:terminate"

theorem Where.name {i k : ℕ} {st : State × SubState} (h : Where i k st) :
    getCurrentStatesName st = if 3 ≤ i then "terminate" else nameAt k := by
  cases h <;> rfl

/-- **What is printed.** After any events the machine has ended if `e1`, `e2`, `e5` have come in
this order, whatever came in between. Else the name says how far `e1`, `e2`, `e3`, `e4` have come
in this order. -/
theorem name_composite (events : List Event) :
    ∃ k ≤ 4, (∀ n ≤ 4, n ≤ k ↔ (innerChain.take n).Sublist events) ∧
      getCurrentStatesName (processAll composite (.idle, .idle) events).1 =
        if outerChain.Sublist events then "terminate" else nameAt k := by
  refine ⟨follow innerChain events, follow_le_length innerChain events, fun n hn => ?_, ?_⟩
  · exact le_follow_iff hn events
  · have houter : 3 ≤ follow outerChain events ↔ outerChain.Sublist events :=
      le_follow_iff (Nat.le_refl 3) events
    rw [(where_processAll events).name]
    exact if_congr houter rfl rfl

end CurrentStatesName

/-! ## One event for two machines -/

namespace ChildParentEvents

inductive Event
  | release (child : Bool)
  | timeout
  deriving DecidableEq, Repr

/-- The states of `parent`. -/
inductive ParentState
  | child
  | intermediate
  | terminated
  deriving DecidableEq, Repr

/-- The states of `hello_world`. -/
inductive State
  /-- `state<parent>` -/
  | parent
  | terminated
  deriving DecidableEq, Repr

/-- `event<release>`. -/
def onRelease : Event → Bool
  | .release _ => true
  | .timeout => false

/-- `event<timeout>`. -/
def onTimeout : Event → Bool
  | .release _ => false
  | .timeout => true

/-- `release_child`. -/
def releaseChild : Event → Bool
  | .release child => child
  | .timeout => false

/-- `parent`. -/
def parentTable : List (Transition ParentState Event Unit) :=
  [⟨.child, fun e => onRelease e && releaseChild e, [], .intermediate⟩,
   ⟨.intermediate, onTimeout, [], .terminated⟩]

/-- `hello_world`. -/
def table : List (Transition State Event Unit) := [⟨.parent, onRelease, [], .terminated⟩]

def State.isParent (s : State) : Bool := decide (s = .parent)

/-- `sm<hello_world>`. -/
def helloWorld : State × ParentState → Event → Option ((State × ParentState) × List Unit) :=
  nest State.isParent (react table) ParentState.child (react parentTable)

/-- The releases among the events. -/
def releases (events : List Event) : List Bool :=
  events.filterMap fun e =>
    match e with
    | .release child => some child
    | .timeout => none

/-- The events that lead through `parent`. -/
def parentChain : List Event := [.release true, .timeout]

/-- Where the machine is, from the releases so far and from how far `parent` has come. -/
inductive Where : List Bool → ℕ → State × ParentState → Prop
  | child : Where [] 0 (.parent, .child)
  | intermediate : Where [true] 1 (.parent, .intermediate)
  | parentEnd : Where [true] 2 (.parent, .terminated)
  | ended {released : List Bool} (k : ℕ) (t : ParentState) (hsome : released ≠ [])
      (hmore : released ≠ [true]) : Where released k (.terminated, t)

theorem releases_concat (events : List Event) (e : Event) :
    releases (events ++ [e]) = releases events ++ releases [e] := List.filterMap_append

theorem where_process {released : List Bool} {k : ℕ} {done : (State × ParentState) × List Unit}
    (h : Where released k done.1) (e : Event) :
    Where (released ++ releases [e]) (if parentChain[k]? = some e then k + 1 else k)
      (process helloWorld done e).1 := by
  obtain ⟨st, actions⟩ := done
  cases h with
  | child =>
    match e with
    | .timeout => exact .child
    | .release true => exact .intermediate
    | .release false => exact .ended _ _ (by simp [releases]) (by simp [releases])
  | intermediate =>
    match e with
    | .timeout => exact .parentEnd
    | .release b => exact .ended _ _ (by simp) (by simp [releases])
  | parentEnd =>
    match e with
    | .timeout => exact .parentEnd
    | .release b => exact .ended _ _ (by simp) (by simp [releases])
  | ended k t hsome hmore =>
    have hsome' : released ++ releases [e] ≠ [] := List.append_ne_nil_of_left_ne_nil hsome _
    have hmore' : released ++ releases [e] ≠ [true] := by
      intro h
      rcases List.append_eq_singleton_iff.mp h with ⟨h, -⟩ | ⟨h, -⟩
      · exact hsome h
      · exact hmore h
    match e with
    | .timeout => exact .ended _ _ hsome' hmore'
    | .release b => exact .ended _ _ hsome' hmore'

theorem where_processAll (events : List Event) :
    Where (releases events) (follow parentChain events)
      (processAll helloWorld (.parent, .child) events).1 := by
  refine processAll_invariant (I := fun events done =>
    Where (releases events) (follow parentChain events) done.1) ?_ ?_ events
  · exact .child
  · intro events done e h
    rw [releases_concat, follow_concat]
    exact where_process h e

theorem Where.terminated_iff {released : List Bool} {k : ℕ} {st : State × ParentState}
    (h : Where released k st) :
    st.1 = .terminated ↔ released ≠ [] ∧ released ≠ [true] := by
  cases h with
  | child => exact iff_of_false nofun fun h => h.1 rfl
  | intermediate => exact iff_of_false nofun fun h => h.2 rfl
  | parentEnd => exact iff_of_false nofun fun h => h.2 rfl
  | ended k t hsome hmore => exact iff_of_true rfl ⟨hsome, hmore⟩

theorem Where.parent_iff {released : List Bool} {k : ℕ} {st : State × ParentState}
    (h : Where released k st) (hparent : st.1 = .parent) : st.2 = .terminated ↔ 2 ≤ k := by
  cases h with
  | child => decide
  | intermediate => decide
  | parentEnd => decide
  | ended => cases hparent

/-- **Who gets the release.** The first release goes to `parent` if it is meant for the child, and
any other one ends the outer machine. So after any events this machine has ended exactly if there
was a release other than one single release for the child. While it has not, `parent` has ended
exactly if a timeout has come after that release. -/
theorem terminated_helloWorld (events : List Event) :
    let st := (processAll helloWorld (.parent, .child) events).1
    (st.1 = .terminated ↔ releases events ≠ [] ∧ releases events ≠ [true]) ∧
      (st.1 = .parent → (st.2 = .terminated ↔ parentChain.Sublist events)) := by
  have hwhere := where_processAll events
  refine ⟨hwhere.terminated_iff, fun hparent => (hwhere.parent_iff hparent).trans ?_⟩
  exact le_follow_iff (Nat.le_refl 2) events

end ChildParentEvents

end Sml

end CppPlayground
