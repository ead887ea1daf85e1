import CppPlayground.Cleanup
import Mathlib.Order.Interval.Finset.Nat

/-!
# Scope guards

`SCOPE_EXIT` and `SCOPE_FAIL` (`tricks/include/scope_action.h`) declare a guard whose body is to
run at the end of the scope: always, or only if the scope is left by an exception. A
`SCOPE_EXIT` guard is a `shared_ptr` to nothing with the body as its deleter. A `SCOPE_FAIL`
guard does not know how its scope is left: its destructor compares
`std::uncaught_exceptions()` with what it was when the guard was constructed.

The programs have scopes, guards, throws and `try` blocks with a `catch (...)`. Guard bodies are
such programs. The guards of a scope are destroyed in reverse order of their construction, also
when the scope is left by an exception. An exception that leaves a guard body ends the program:
the destructors are `noexcept`. All that is known of `std::uncaught_exceptions()` is that it
counts the exceptions thrown and not yet caught.

What should happen is a matter of the program alone (`Block.intended`): there is no count in it,
only how each scope is left. The guards make it happen (`guards_fire`): the log of a run is the
intended one, and it accounts for each guard that was constructed, in the sense of
`Cleanup.Accounts`. What carries the proof is that the count is the same at each statement of a
scope.
-/

namespace CppPlayground

namespace ScopeAction

open Cleanup (Event Accounts dueIds runsDue closing)

/-! ## Data -/

inductive Kind
  | scopeExit
  | scopeFail
  deriving DecidableEq, Repr

/-- How a scope is left. -/
inductive Outcome
  | completed
  | exception
  deriving DecidableEq, Repr

/-- The statements of a scope. -/
inductive Block
  /-- no more statements -/
  | done
  /-- `throw ..;` -/
  | throw (rest : Block)
  /-- `{ .. }` -/
  | scope (inner rest : Block)
  /-- `try { .. } catch (...) { .. }` -/
  | tryCatch (body handler rest : Block)
  /-- `SCOPE_EXIT { .. };` or `SCOPE_FAIL { .. };` -/
  | guard (kind : Kind) (body rest : Block)
  deriving DecidableEq, Repr

/-- What a guard was declared as. -/
structure Declaration where
  kind : Kind
  body : Block
  deriving DecidableEq, Repr

/-- The exceptions and guards there have been. -/
structure State where
  /-- `std::uncaught_exceptions()` -/
  uncaught : ℕ
  /-- history: the number of guards constructed -/
  next : ℕ
  /-- history: the scopes left and the bodies run -/
  log : List (Event (ℕ × Declaration) Outcome)
  deriving DecidableEq, Repr

/-- A guard object. -/
structure Guard where
  /-- the number it was constructed as -/
  id : ℕ
  kind : Kind
  /-- `exceptionCount_` of the counter in a `SCOPE_FAIL` guard -/
  exceptionCount : ℕ
  /-- `function_`, or the deleter of the `shared_ptr` -/
  function : State → Option (Outcome × State)
  /-- history: the statements of the function -/
  body : Block

/-! ## The guards -/

def State.emit (s : State) (event : Event (ℕ × Declaration) Outcome) : State :=
  { s with log := s.log ++ [event] }

namespace Guard

def label (g : Guard) : ℕ × Declaration :=
  (g.id, ⟨g.kind, g.body⟩)

def hasNewUncaughtException (g : Guard) (s : State) : Bool :=
  s.uncaught > g.exceptionCount

/-- Does the destructor call the function? -/
def executes (g : Guard) (s : State) : Bool :=
  match g.kind with
  | .scopeExit => true
  | .scopeFail => true == g.hasNewUncaughtException s

/-- The destructor; `none` if an exception leaves the function. -/
def destroy (g : Guard) (s : State) : Option State :=
  if g.executes s then
    match g.function (s.emit (.runs g.label)) with
    | some (.completed, s') => some s'
    | some (.exception, _) | none => none
  else some s

end Guard

/-- The guards are destroyed, the last one first. -/
def unwind : List Guard → State → Option State
  | [], s => some s
  | g :: guards, s => (g.destroy s).bind (unwind guards)

/-- Control leaves a scope with these guards. -/
def leave (guards : List Guard) (outcome : Outcome) (s : State) : Option (Outcome × State) :=
  (unwind guards (s.emit (.leaves (guards.map Guard.label) outcome))).map fun s' =>
    (outcome, s'.emit (.left (guards.map Guard.label)))

/-- Run the statements of a scope that has the guards, and leave it. -/
def exec : Block → List Guard → State → Option (Outcome × State)
  | .done, guards, s => leave guards .completed s
  | .throw _, guards, s => leave guards .exception { s with uncaught := s.uncaught + 1 }
  | .scope inner rest, guards, s =>
    match exec inner [] s with
    | some (.completed, s') => exec rest guards s'
    | some (.exception, s') => leave guards .exception s'
    | none => none
  | .tryCatch body handler rest, guards, s =>
    match exec body [] s with
    | some (.completed, s') => exec rest guards s'
    | some (.exception, s') =>
      match exec handler [] { s' with uncaught := s'.uncaught - 1 } with
      | some (.completed, s'') => exec rest guards s''
      | some (.exception, s'') => leave guards .exception s''
      | none => none
    | none => none
  | .guard kind body rest, guards, s =>
    exec rest (⟨s.next, kind, s.uncaught, exec body [], body⟩ :: guards)
      { s with next := s.next + 1 }

/-- A program may start while exceptions are being handled elsewhere. -/
def start (uncaught : ℕ) : State where
  uncaught := uncaught
  next := 0
  log := []

/-! ## Control flow -/

namespace Block

/-- How a scope with these statements is left. Guards have no part in it. -/
def outcome : Block → Outcome
  | .done => .completed
  | .throw _ => .exception
  | .scope inner rest =>
    match inner.outcome with
    | .completed => rest.outcome
    | .exception => .exception
  | .tryCatch body handler rest =>
    match body.outcome, handler.outcome with
    | .completed, _ | .exception, .completed => rest.outcome
    | .exception, .exception => .exception
  | .guard _ _ rest => rest.outcome

/-- No exception leaves a guard body. -/
def contained : Block → Bool
  | .done => true
  | .throw rest => rest.contained
  | .scope inner rest => inner.contained && rest.contained
  | .tryCatch body handler rest => body.contained && handler.contained && rest.contained
  | .guard _ body rest => body.outcome = .completed && body.contained && rest.contained

end Block

/-! ## What should happen -/

/-- A `SCOPE_EXIT` body is always due, a `SCOPE_FAIL` body after an exception. -/
def due : Outcome → Declaration → Bool
  | _, ⟨.scopeExit, _⟩ => true
  | .completed, ⟨.scopeFail, _⟩ => false
  | .exception, ⟨.scopeFail, _⟩ => true

/-- What should happen in a scope. -/
structure Plan where
  /-- what happens before control leaves it -/
  before : List (Event Declaration Outcome)
  /-- the guards declared by then, the last one first, each with what happens in its body -/
  declared : List (Declaration × List (Event Declaration Outcome))

namespace Plan

/-- What happens from the start of the scope until it has been left. -/
def close (p : Plan) (outcome : Outcome) : List (Event Declaration Outcome) :=
  p.before ++ closing due p.declared outcome

/-- Something happens first. -/
def after (first : List (Event Declaration Outcome)) (p : Plan) : Plan :=
  { p with before := first ++ p.before }

/-- A guard is declared first, so that it is the last one to run. -/
def under (declared : Declaration × List (Event Declaration Outcome)) (p : Plan) : Plan :=
  { p with declared := p.declared ++ [declared] }

end Plan

namespace Block

/-- The plan of a scope with these statements. An exception ends it; one that an inner scope lets
out does too. -/
def plan : Block → Plan
  | .done | .throw _ => ⟨[], []⟩
  | .scope inner rest =>
    let first := inner.plan.close inner.outcome
    match inner.outcome with
    | .completed => rest.plan.after first
    | .exception => ⟨first, []⟩
  | .tryCatch body handler rest =>
    let first := body.plan.close body.outcome
    match body.outcome, handler.outcome with
    | .completed, _ => rest.plan.after first
    | .exception, .completed => rest.plan.after (first ++ handler.plan.close .completed)
    | .exception, .exception => ⟨first ++ handler.plan.close .exception, []⟩
  | .guard kind body rest => rest.plan.under (⟨kind, body⟩, body.plan.close body.outcome)

/-- **What should happen** when a program runs: each body that is due at the end of its scope runs
there, the last declared first, and with it what should happen in the body. -/
def intended (b : Block) : List (Event Declaration Outcome) := b.plan.close b.outcome

/-- `SCOPE_EXIT { .. }; SCOPE_FAIL { .. }; throw ..;` with bodies that do nothing. -/
example : (Block.guard .scopeExit .done (.guard .scopeFail .done (.throw .done))).intended =
    [.leaves [⟨.scopeFail, .done⟩, ⟨.scopeExit, .done⟩] .exception,
      .runs ⟨.scopeFail, .done⟩, .leaves [] .completed, .left [],
      .runs ⟨.scopeExit, .done⟩, .leaves [] .completed, .left [],
      .left [⟨.scopeFail, .done⟩, ⟨.scopeExit, .done⟩]] := rfl

end Block

/-! ## Parts of a run -/

/-- The exceptions that are on their way out. -/
def Outcome.uncaught : Outcome → ℕ
  | .completed => 0
  | .exception => 1

/-- From `s` to `s'`, the log accounts for all new guards and for those in `own`, while those in
`foreign` ran, and it tells `trace`; the exceptions on their way are `exceptions` more. -/
structure Ran (s s' : State) (exceptions : ℕ) (own : Finset ℕ) (foreign : List ℕ)
    (trace : List (Event Declaration Outcome)) : Prop where
  uncaught : s'.uncaught = s.uncaught + exceptions
  next : s.next ≤ s'.next
  log : ∃ history, s'.log = s.log ++ history ∧
    Accounts due (Finset.Ico s.next s'.next ∪ own) foreign history ∧
    history.map Event.unnumbered = trace

theorem Ran.refl (s : State) : Ran s s 0 ∅ [] [] where
  uncaught := rfl
  next := le_rfl
  log := ⟨[], by simp, by simpa using Accounts.nil, rfl⟩

/-- One part of a run after the other. The guards they share are older than both. -/
theorem Ran.trans {s s₁ s₂ : State} {m n : ℕ} {own : Finset ℕ} {foreign foreign' : List ℕ}
    {trace trace' : List (Event Declaration Outcome)}
    (h : Ran s s₁ m ∅ foreign trace) (h' : Ran s₁ s₂ n own foreign' trace')
    (hown : ∀ id ∈ own, id < s.next) (hforeign : ∀ id ∈ foreign, id < s.next ∧ id ∉ own)
    (hforeign' : ∀ id ∈ foreign', id < s.next) :
    Ran s s₂ (m + n) own (foreign ++ foreign') (trace ++ trace') := by
  obtain ⟨history, hlog, hacc, rfl⟩ := h.log
  obtain ⟨history', hlog', hacc', rfl⟩ := h'.log
  have hnext := h.next
  have hnext' := h'.next
  refine ⟨by rw [h'.uncaught, h.uncaught, Nat.add_assoc], h.next.trans h'.next,
    history ++ history', by rw [hlog', hlog, List.append_assoc], ?_, List.map_append⟩
  have hunion : Finset.Ico s.next s₁.next ∪ ∅ ∪ (Finset.Ico s₁.next s₂.next ∪ own) =
      Finset.Ico s.next s₂.next ∪ own := by
    ext id
    simp only [Finset.mem_union, Finset.mem_Ico, Finset.notMem_empty]
    grind
  rw [← hunion]
  refine hacc.append hacc' ?_ ?_ ?_
  · rw [Finset.disjoint_left]
    intro id hid hid'
    have := hown id
    simp only [Finset.mem_union, Finset.mem_Ico, Finset.notMem_empty] at hid hid'
    grind
  · intro id hid
    have := hforeign id hid
    simp only [Finset.mem_union, Finset.mem_Ico]
    grind
  · intro id hid
    have := hforeign' id hid
    simp only [Finset.mem_union, Finset.mem_Ico, Finset.notMem_empty, or_false]
    omega

/-! ## Guards and scopes -/

/-- What is known of a guard body: it accounts for its own guards and does what it should,
wherever it is run. -/
def Regular (run : State → Option (Outcome × State))
    (trace : List (Event Declaration Outcome)) : Prop :=
  ∀ {s outcome s'}, run s = some (outcome, s') → Ran s s' outcome.uncaught ∅ [] trace

/-- The guards of a scope: they were constructed when the count was `uncaught`. -/
structure FrameOk (uncaught next : ℕ) (guards : List Guard) : Prop where
  older : ∀ g ∈ guards, g.id < next
  count : ∀ g ∈ guards, g.exceptionCount = uncaught
  regular : ∀ g ∈ guards, Regular g.function g.body.intended
  order : (guards.map Guard.id).Pairwise (· > ·)

/-- What the guards were declared as, each with what should happen in its body. -/
def declared (guards : List Guard) : List (Declaration × List (Event Declaration Outcome)) :=
  guards.map fun g => (⟨g.kind, g.body⟩, g.body.intended)

theorem FrameOk.nil {uncaught next : ℕ} : FrameOk uncaught next [] where
  older := nofun
  count := nofun
  regular := nofun
  order := List.Pairwise.nil

theorem FrameOk.mono {uncaught next next' : ℕ} {guards : List Guard}
    (h : FrameOk uncaught next guards) (hle : next ≤ next') : FrameOk uncaught next' guards :=
  { h with older := fun g hg => (h.older g hg).trans_le hle }

theorem FrameOk.cons {uncaught next : ℕ} {guards : List Guard} {kind : Kind}
    {function : State → Option (Outcome × State)} {body : Block}
    (h : FrameOk uncaught next guards) (hreg : Regular function body.intended) :
    FrameOk uncaught (next + 1) (⟨next, kind, uncaught, function, body⟩ :: guards) where
  older := List.forall_mem_cons.mpr
    ⟨Nat.lt_succ_self next, fun g hg => (h.older g hg).trans (Nat.lt_succ_self next)⟩
  count := List.forall_mem_cons.mpr ⟨rfl, h.count⟩
  regular := List.forall_mem_cons.mpr ⟨hreg, h.regular⟩
  order := by
    refine List.pairwise_cons.mpr ⟨fun id hid => ?_, h.order⟩
    obtain ⟨g, hg, rfl⟩ := List.mem_map.mp hid
    exact h.older g hg

theorem FrameOk.tail {uncaught next : ℕ} {g : Guard} {guards : List Guard}
    (h : FrameOk uncaught next (g :: guards)) : FrameOk uncaught next guards where
  older := fun g' hg => h.older g' (List.mem_cons_of_mem g hg)
  count := fun g' hg => h.count g' (List.mem_cons_of_mem g hg)
  regular := fun g' hg => h.regular g' (List.mem_cons_of_mem g hg)
  order := (List.pairwise_cons.mp h.order).2

/-- **The destructor decides rightly**: the count has grown exactly if the scope is left by an
exception. -/
theorem executes_eq_due {g : Guard} {s : State} {outcome : Outcome}
    (h : s.uncaught = g.exceptionCount + outcome.uncaught) :
    g.executes s = due outcome ⟨g.kind, g.body⟩ := by
  cases hk : g.kind <;> cases outcome <;>
    simp [Guard.executes, Guard.hasNewUncaughtException, due, hk, h, Outcome.uncaught]

theorem dueIds_cons (g : Guard) (guards : List Guard) (outcome : Outcome) :
    dueIds due ((g :: guards).map Guard.label) outcome =
      (if due outcome ⟨g.kind, g.body⟩ then [g.id] else []) ++
        dueIds due (guards.map Guard.label) outcome := by
  by_cases h : due outcome ⟨g.kind, g.body⟩ = true
  · simp [dueIds, Guard.label, h]
  · simp [dueIds, Guard.label, h]

theorem destroy_ran {g : Guard} {s s' : State} {outcome : Outcome}
    (hcount : s.uncaught = g.exceptionCount + outcome.uncaught) (hid : g.id < s.next)
    (hreg : Regular g.function g.body.intended) (h : g.destroy s = some s') :
    Ran s s' 0 ∅ (if due outcome ⟨g.kind, g.body⟩ then [g.id] else [])
      (if due outcome ⟨g.kind, g.body⟩ then .runs ⟨g.kind, g.body⟩ :: g.body.intended else []) := by
  unfold Guard.destroy at h
  rw [executes_eq_due hcount] at h
  split at h
  case isTrue hdue =>
    rw [if_pos hdue, if_pos hdue]
    split at h
    · next s₁ hrun =>
      obtain rfl := Option.some.inj h
      have hstart : Ran s (s.emit (.runs g.label)) 0 ∅ [g.id] [.runs ⟨g.kind, g.body⟩] :=
        ⟨rfl, le_rfl, [.runs g.label], rfl,
          by simpa [State.emit, Guard.label] using Accounts.runs g.label, rfl⟩
      exact hstart.trans (hreg hrun) nofun (by simpa using hid) nofun
    · cases h
    · cases h
  case isFalse hdue =>
    obtain rfl := Option.some.inj h
    rw [if_neg hdue, if_neg hdue]
    exact .refl s

/-- The guards that are due run, in order. -/
theorem unwind_ran {guards : List Guard} {s s' : State} {uncaught : ℕ} {outcome : Outcome}
    (hframe : FrameOk uncaught s.next guards) (hcount : s.uncaught = uncaught + outcome.uncaught)
    (h : unwind guards s = some s') :
    Ran s s' 0 ∅ (dueIds due (guards.map Guard.label) outcome)
      (runsDue due (declared guards) outcome) := by
  induction guards generalizing s with
  | nil =>
    obtain rfl := Option.some.inj h
    exact .refl s
  | cons g guards ih =>
    obtain ⟨s₁, hg, hrest⟩ := Option.bind_eq_some_iff.mp h
    have hmem : g ∈ g :: guards := List.mem_cons_self
    have hcounted : s.uncaught = g.exceptionCount + outcome.uncaught := by
      rw [hframe.count g hmem, hcount]
    have hfirst := destroy_ran hcounted (hframe.older g hmem) (hframe.regular g hmem) hg
    have hothers := ih (hframe.tail.mono hfirst.next) (hfirst.uncaught.trans hcount) hrest
    rw [dueIds_cons, declared, List.map_cons, Cleanup.runsDue_cons]
    refine hfirst.trans hothers nofun (fun id hid => ⟨?_, Finset.notMem_empty id⟩) ?_
    · split at hid
      · exact List.mem_singleton.mp hid ▸ hframe.older g hmem
      · cases hid
    · intro id hid
      obtain ⟨label, hlabel, rfl⟩ := List.mem_map.mp (Cleanup.dueIds_subset hid)
      obtain ⟨g', hg', rfl⟩ := List.mem_map.mp hlabel
      exact hframe.tail.older g' hg'

/-- A scope is left. -/
theorem leave_ran {guards : List Guard} {s s' : State} {uncaught : ℕ} {outcome outcome' : Outcome}
    (hframe : FrameOk uncaught s.next guards) (hcount : s.uncaught = uncaught + outcome.uncaught)
    (h : leave guards outcome s = some (outcome', s')) :
    outcome' = outcome ∧ Ran s s' 0 (guards.map Guard.id).toFinset []
      (closing due (declared guards) outcome) := by
  obtain ⟨s₁, hunwind, heq⟩ := Option.map_eq_some_iff.mp h
  obtain ⟨rfl, rfl⟩ := Prod.mk.injEq .. ▸ heq
  refine ⟨rfl, ?_⟩
  have hran := unwind_ran (s := s.emit (.leaves (guards.map Guard.label) outcome)) hframe hcount
    hunwind
  obtain ⟨history, hlog, hacc, htrace⟩ := hran.log
  have hids : (guards.map Guard.label).map Prod.fst = guards.map Guard.id := by
    rw [List.map_map]
    rfl
  have hlabels : (guards.map Guard.label).map Prod.snd = (declared guards).map Prod.fst := by
    rw [declared, List.map_map, List.map_map]
    rfl
  refine ⟨hran.uncaught, hran.next, .leaves (guards.map Guard.label) outcome ::
    (history ++ [.left (guards.map Guard.label)]), ?_, ?_, ?_⟩
  · simp [State.emit, hlog]
  · have hclose := hacc.close ?_ (hids ▸ hframe.order)
    · rw [hids, Finset.union_empty] at hclose
      exact hclose
    · intro id hid
      rw [hids] at hid
      obtain ⟨g, hg, rfl⟩ := List.mem_map.mp hid
      have hlt := hframe.older g hg
      simp [State.emit, hlt]
  · rw [List.map_cons, List.map_append, htrace, List.map_singleton, Event.unnumbered,
      Event.unnumbered, hlabels, closing]

/-! ## Programs -/

section Parts

variable {s s' s₁ s₂ : State} {guards : List Guard} {trace trace' : List (Event Declaration Outcome)}

/-- An exception is thrown. -/
theorem Ran.ofThrow {own : Finset ℕ}
    (h : Ran { s with uncaught := s.uncaught + 1 } s' 0 own [] trace) : Ran s s' 1 own [] trace :=
  ⟨h.uncaught, h.next, h.log⟩

/-- An exception is caught. -/
theorem Ran.caught (h : Ran s s' 1 ∅ [] trace) :
    Ran s { s' with uncaught := s'.uncaught - 1 } 0 ∅ [] trace := by
  refine ⟨?_, h.next, h.log⟩
  have hcount := h.uncaught
  show s'.uncaught - 1 = s.uncaught + 0
  omega

/-- A guard is constructed, the first of the new ones. -/
theorem Ran.ofConstruct {n : ℕ} {own : Finset ℕ}
    (h : Ran { s with next := s.next + 1 } s' n (insert s.next own) [] trace) :
    Ran s s' n own [] trace := by
  have hnext : s.next + 1 ≤ s'.next := h.next
  have hunion : Finset.Ico s.next s'.next ∪ own =
      Finset.Ico (s.next + 1) s'.next ∪ insert s.next own := by
    ext id
    simp only [Finset.mem_union, Finset.mem_Ico, Finset.mem_insert]
    grind
  refine ⟨h.uncaught, Nat.le_of_succ_le hnext, ?_⟩
  rw [hunion]
  exact h.log

/-- The scope goes on after an inner one. -/
theorem Ran.continue {m n : ℕ} (hframe : FrameOk s.uncaught s.next guards)
    (h : Ran s s₁ m ∅ [] trace) (h' : Ran s₁ s₂ n (guards.map Guard.id).toFinset [] trace') :
    Ran s s₂ (m + n) (guards.map Guard.id).toFinset [] (trace ++ trace') := by
  refine h.trans h' (fun id hid => ?_) nofun nofun
  obtain ⟨g, hg, rfl⟩ := List.mem_map.mp (List.mem_toFinset.mp hid)
  exact hframe.older g hg

/-- The scope goes on after an inner one that was left without an exception. -/
theorem Ran.resume {n : ℕ} (hframe : FrameOk s.uncaught s.next guards)
    (h : Ran s s₁ 0 ∅ [] trace) (h' : Ran s₁ s₂ n (guards.map Guard.id).toFinset [] trace') :
    Ran s s₂ n (guards.map Guard.id).toFinset [] (trace ++ trace') := by
  have hboth := h.continue hframe h'
  rwa [Nat.zero_add] at hboth

/-- The count is what it was when the guards of the scope were constructed. -/
theorem FrameOk.after (hframe : FrameOk s.uncaught s.next guards) (h : Ran s s₁ 0 ∅ [] trace) :
    FrameOk s₁.uncaught s₁.next guards := by
  rw [h.uncaught]
  exact hframe.mono h.next

/-- The scope is left by the exception of an inner one. -/
theorem leave_exception_ran {outcome : Outcome} (hframe : FrameOk s.uncaught s.next guards)
    (h : Ran s s₁ 1 ∅ [] trace) (hleave : leave guards .exception s₁ = some (outcome, s')) :
    outcome = .exception ∧ Ran s s' outcome.uncaught (guards.map Guard.id).toFinset []
      (trace ++ closing due (declared guards) .exception) := by
  have hcount : s₁.uncaught = s.uncaught + Outcome.exception.uncaught := h.uncaught
  obtain ⟨rfl, hran⟩ := leave_ran (hframe.mono h.next) hcount hleave
  exact ⟨rfl, h.continue hframe hran⟩

end Parts

namespace Block

/-- What should happen in a scope that has guards already. -/
def intendedWith (b : Block) (guards : List Guard) : List (Event Declaration Outcome) :=
  b.plan.before ++ closing due (b.plan.declared ++ declared guards) b.outcome

@[simp] theorem intendedWith_nil (b : Block) : b.intendedWith [] = b.intended := by
  rw [intendedWith, intended, Plan.close, declared, List.map_nil, List.append_nil]

variable {inner body handler rest : Block} {guards : List Guard}

theorem intendedWith_scope (h : inner.outcome = .completed) :
    (scope inner rest).intendedWith guards = inner.intended ++ rest.intendedWith guards := by
  simp [intendedWith, intended, plan, outcome, h, Plan.after]

theorem intendedWith_scope_exception (h : inner.outcome = .exception) :
    (scope inner rest).intendedWith guards =
      inner.intended ++ closing due (declared guards) .exception := by
  simp [intendedWith, intended, plan, outcome, h]

theorem intendedWith_tryCatch (h : body.outcome = .completed) :
    (tryCatch body handler rest).intendedWith guards =
      body.intended ++ rest.intendedWith guards := by
  simp [intendedWith, intended, plan, outcome, h, Plan.after]

theorem intendedWith_tryCatch_caught (h : body.outcome = .exception)
    (h' : handler.outcome = .completed) :
    (tryCatch body handler rest).intendedWith guards =
      body.intended ++ handler.intended ++ rest.intendedWith guards := by
  simp [intendedWith, intended, plan, outcome, h, h', Plan.after]

theorem intendedWith_tryCatch_exception (h : body.outcome = .exception)
    (h' : handler.outcome = .exception) :
    (tryCatch body handler rest).intendedWith guards =
      body.intended ++ handler.intended ++ closing due (declared guards) .exception := by
  simp [intendedWith, intended, plan, outcome, h, h']

theorem intendedWith_guard (g : Guard) :
    (guard g.kind g.body rest).intendedWith guards = rest.intendedWith (g :: guards) := by
  simp [intendedWith, intended, plan, outcome, Plan.under, declared]

end Block

/-- **The run of a scope.** By induction on its statements: each of them leaves the count as it
was, unless an exception leaves it, and then the scope is left too. -/
theorem exec_ran (b : Block) {guards : List Guard} {s s' : State} {outcome : Outcome}
    (hframe : FrameOk s.uncaught s.next guards) (h : exec b guards s = some (outcome, s')) :
    outcome = b.outcome ∧ Ran s s' outcome.uncaught (guards.map Guard.id).toFinset []
      (b.intendedWith guards) := by
  induction b generalizing guards s s' outcome with
  | done =>
    obtain ⟨rfl, hran⟩ := leave_ran hframe rfl h
    exact ⟨rfl, hran⟩
  | throw rest _ =>
    have hcount : s.uncaught + 1 = s.uncaught + Outcome.exception.uncaught := rfl
    obtain ⟨rfl, hran⟩ :=
      leave_ran (s := { s with uncaught := s.uncaught + 1 }) hframe hcount h
    exact ⟨rfl, hran.ofThrow⟩
  | scope inner rest ihInner ihRest =>
    rw [exec] at h
    split at h
    · next s₁ hinner =>
      obtain ⟨hout, hran⟩ := ihInner .nil hinner
      obtain ⟨rfl, hrest⟩ := ihRest (hframe.after hran) h
      rw [Block.intendedWith_scope hout.symm, Block.outcome, ← hout]
      exact ⟨rfl, (Block.intendedWith_nil inner ▸ hran).resume hframe hrest⟩
    · next s₁ hinner =>
      obtain ⟨hout, hran⟩ := ihInner .nil hinner
      obtain ⟨rfl, hleave⟩ := leave_exception_ran hframe hran h
      rw [Block.intendedWith_scope_exception hout.symm, Block.outcome, ← hout]
      exact ⟨rfl, Block.intendedWith_nil inner ▸ hleave⟩
    · cases h
  | tryCatch body handler rest ihBody ihHandler ihRest =>
    rw [exec] at h
    split at h
    · next s₁ hbody =>
      obtain ⟨hout, hran⟩ := ihBody .nil hbody
      obtain ⟨rfl, hrest⟩ := ihRest (hframe.after hran) h
      rw [Block.intendedWith_tryCatch hout.symm, Block.outcome, ← hout]
      exact ⟨rfl, (Block.intendedWith_nil body ▸ hran).resume hframe hrest⟩
    · next s₁ hbody =>
      obtain ⟨hout, hran⟩ := ihBody .nil hbody
      rw [Block.intendedWith_nil] at hran
      split at h
      · next s₂ hhandler =>
        obtain ⟨hout', hran'⟩ := ihHandler .nil hhandler
        rw [Block.intendedWith_nil] at hran'
        have hboth : Ran s s₂ 0 ∅ [] (body.intended ++ handler.intended) :=
          hran.caught.resume .nil hran'
        obtain ⟨rfl, hrest⟩ := ihRest (hframe.after hboth) h
        rw [Block.intendedWith_tryCatch_caught hout.symm hout'.symm, Block.outcome, ← hout, ← hout']
        exact ⟨rfl, hboth.resume hframe hrest⟩
      · next s₂ hhandler =>
        obtain ⟨hout', hran'⟩ := ihHandler .nil hhandler
        rw [Block.intendedWith_nil] at hran'
        have hboth : Ran s s₂ 1 ∅ [] (body.intended ++ handler.intended) :=
          hran.caught.resume .nil hran'
        obtain ⟨rfl, hleave⟩ := leave_exception_ran hframe hboth h
        rw [Block.intendedWith_tryCatch_exception hout.symm hout'.symm, Block.outcome, ← hout,
          ← hout']
        exact ⟨rfl, hleave⟩
      · cases h
    · cases h
  | guard kind body rest ihBody ihRest =>
    have hbody : Regular (exec body []) body.intended := fun hrun =>
      body.intendedWith_nil ▸ (ihBody .nil hrun).2
    obtain ⟨rfl, hran⟩ := ihRest (hframe.cons hbody) h
    rw [List.map_cons, List.toFinset_cons, ← Block.intendedWith_guard] at hran
    exact ⟨rfl, hran.ofConstruct⟩

/-! ## Programs that go on -/

/-- The guard body lets no exception out. -/
def Guard.Total (g : Guard) : Prop :=
  ∀ s, ∃ s', g.function s = some (.completed, s')

theorem unwind_total {guards : List Guard} (htotal : ∀ g ∈ guards, g.Total) (s : State) :
    ∃ s', unwind guards s = some s' := by
  induction guards generalizing s with
  | nil => exact ⟨s, rfl⟩
  | cons g guards ih =>
    obtain ⟨hg, hguards⟩ := List.forall_mem_cons.mp htotal
    have hdestroy : ∃ s₁, g.destroy s = some s₁ := by
      unfold Guard.destroy
      split
      · obtain ⟨s₁, hrun⟩ := hg (s.emit (.runs g.label))
        exact ⟨s₁, by rw [hrun]⟩
      · exact ⟨s, rfl⟩
    obtain ⟨s₁, hs₁⟩ := hdestroy
    obtain ⟨s₂, hs₂⟩ := ih hguards s₁
    exact ⟨s₂, by rw [unwind, hs₁]; exact hs₂⟩

theorem leave_total {guards : List Guard} (htotal : ∀ g ∈ guards, g.Total) (outcome : Outcome)
    (s : State) : ∃ s', leave guards outcome s = some (outcome, s') := by
  obtain ⟨s₁, hs₁⟩ :=
    unwind_total htotal (s.emit (.leaves (guards.map Guard.label) outcome))
  exact ⟨_, by rw [leave, hs₁]; rfl⟩

/-- A program whose guard bodies let no exception out is not ended by one. -/
theorem exec_total {b : Block} (hb : b.contained = true) (guards : List Guard)
    (htotal : ∀ g ∈ guards, g.Total) (s : State) :
    ∃ s', exec b guards s = some (b.outcome, s') := by
  induction b generalizing guards s with
  | done => exact leave_total htotal .completed s
  | throw rest _ => exact leave_total htotal .exception _
  | scope inner rest ihInner ihRest =>
    obtain ⟨hinner, hrest⟩ := Bool.and_eq_true_iff.mp hb
    obtain ⟨s₁, hs₁⟩ := ihInner hinner [] nofun s
    rw [exec, hs₁, Block.outcome]
    cases inner.outcome with
    | completed => exact ihRest hrest guards htotal s₁
    | exception => exact leave_total htotal .exception s₁
  | tryCatch body handler rest ihBody ihHandler ihRest =>
    obtain ⟨hboth, hrest⟩ := Bool.and_eq_true_iff.mp hb
    obtain ⟨hbody, hhandler⟩ := Bool.and_eq_true_iff.mp hboth
    obtain ⟨s₁, hs₁⟩ := ihBody hbody [] nofun s
    rw [exec, hs₁, Block.outcome]
    cases body.outcome with
    | completed => exact ihRest hrest guards htotal s₁
    | exception =>
      obtain ⟨s₂, hs₂⟩ := ihHandler hhandler [] nofun { s₁ with uncaught := s₁.uncaught - 1 }
      simp only [hs₂]
      cases handler.outcome with
      | completed => exact ihRest hrest guards htotal s₂
      | exception => exact leave_total htotal .exception s₂
  | guard kind body rest ihBody ihRest =>
    obtain ⟨hboth, hrest⟩ := Bool.and_eq_true_iff.mp hb
    obtain ⟨hout, hbody⟩ := Bool.and_eq_true_iff.mp hboth
    have hguard : Guard.Total ⟨s.next, kind, s.uncaught, exec body [], body⟩ := by
      intro t
      obtain ⟨t', ht'⟩ := ihBody hbody [] nofun t
      rw [of_decide_eq_true hout] at ht'
      exact ⟨t', ht'⟩
    exact ihRest hrest _ (List.forall_mem_cons.mpr ⟨hguard, htotal⟩) _

/-- **Scope guards fire exactly when they should.** A program that lets no exception out of its
guard bodies goes through, whatever the count at its start; and whenever a program goes
through, what has happened is what should happen. Each guard that was constructed is accounted
for: if its body is due, it has run once, at the end of its scope, the last declared first, and
otherwise never. -/
theorem guards_fire (b : Block) (n : ℕ) :
    (b.contained = true → ∃ s, exec b [] (start n) = some (b.outcome, s)) ∧
      ∀ outcome s, exec b [] (start n) = some (outcome, s) →
        outcome = b.outcome ∧ s.uncaught = n + outcome.uncaught ∧
          Accounts due (Finset.range s.next) [] s.log ∧
          s.log.map Event.unnumbered = b.intended := by
  refine ⟨fun hb => exec_total hb [] nofun (start n), fun outcome s h => ?_⟩
  obtain ⟨hout, hran⟩ := exec_ran b .nil h
  obtain ⟨history, hlog, hacc, htrace⟩ := hran.log
  have hlog' : s.log = history := by
    rw [hlog]
    rfl
  have hown : Finset.Ico (start n).next s.next ∪ (([] : List Guard).map Guard.id).toFinset =
      Finset.range s.next := by
    simp [start]
  rw [hlog', ← hown, ← Block.intendedWith_nil]
  exact ⟨hout, hran.uncaught, hacc, htrace⟩

/-- A `SCOPE_FAIL` body that runs while an exception is on its way has a scope of its own that
goes well, and one whose exception is caught. -/
def unwindingProgram : Block :=
  .tryCatch
    (.guard .scopeFail
      (.scope (.guard .scopeFail .done .done)
        (.tryCatch (.guard .scopeFail .done (.throw .done)) .done .done))
      (.guard .scopeExit .done (.throw .done)))
    .done
    .done

/-- The guards 0 and 1 are those of the `try` block; in the body of 0, guard 2 does not
run and guard 3 does. So it is from the start, and when there is an exception already. -/
theorem guards_fire_unwinding :
    (∃ s, exec unwindingProgram [] (start 0) = some (.completed, s) ∧ s.uncaught = 0 ∧
      Cleanup.ran s.log = [1, 0, 3] ∧ s.log.map Event.unnumbered = unwindingProgram.intended) ∧
    ∃ s, exec unwindingProgram [] (start 1) = some (.completed, s) ∧ s.uncaught = 1 ∧
      Cleanup.ran s.log = [1, 0, 3] ∧ s.log.map Event.unnumbered = unwindingProgram.intended :=
  ⟨⟨_, rfl, rfl, by decide, ((guards_fire unwindingProgram 0).2 .completed _ rfl).2.2.2⟩,
    ⟨_, rfl, rfl, by decide, ((guards_fire unwindingProgram 1).2 .completed _ rfl).2.2.2⟩⟩

end ScopeAction

end CppPlayground
