import CppPlayground.Machine

/-!
# The factory with overloaded creators

`Factory` (`design_pattern_in_modern_cpp/src/factory_experimental.cpp`) keeps, for each
identifier, a vector of creator functions of different signatures. A creator is kept as a
pointer to an untyped function, beside the `type_index` of what it was;
`createObject` looks for the signature it deduces from its arguments, casts the pointer back
and calls it. The first creator of an identifier and the later ones are inserted on different
paths.

The identifiers, the signatures and the creators are arbitrary; `typeOf creator` is
`typeid(+creator)`. Of a `std::map` only what `find`, `insert` and `erase` say of it matters,
so it is a partial function.

`Flat` is what the factory is for: one map from pairs of an identifier and a signature. The
factory behaves as that map (`factory_refines`), and the map tells which creators have
been accepted since their identifier was last unregistered (`flat_accepted`).
-/

namespace CppPlayground

namespace Factory

universe u

variable {Id Sig F : Type u}

/-! ## Data -/

/-- An exception, with its text. -/
inductive Exception
  | runtimeError (what : String)
  | invalidArgument (what : String)
  deriving DecidableEq, Repr

/-- What a call does. -/
inductive Result (Sig F : Type u) : Type u
  | returned (value : Bool)
  /-- the creator is called, through a pointer of type `signature` -/
  | called (creator : F) (signature : Sig)
  | nullptr
  | thrown (exception : Exception)
  deriving DecidableEq, Repr

/-- `FunctionTypes`: pairs of a function and its type. -/
structure FunctionTypes (Sig F : Type u) : Type u where
  fs : List (F × Sig)
  deriving DecidableEq, Repr

/-- `associations_`. -/
structure State (Id Sig F : Type u) : Type u where
  associations : Id → Option (FunctionTypes Sig F)

/-- A call of a member function. -/
inductive Call (Id Sig F : Type u) : Type u
  | registerCreator (id : Id) (creator : F)
  | unregisterCreator (id : Id)
  /-- `signature` is that of a creator that takes the arguments -/
  | createObject (id : Id) (signature : Sig)
  deriving DecidableEq, Repr

def alreadyExists : Exception :=
  .runtimeError "the creator function with same signature already exists."

def noMatchingFunction : Exception :=
  .runtimeError "no matching function."

/-- `FactoryErrorNullptr::onUnknownType`. -/
def factoryErrorNullptr (_id : Id) : Result Sig F :=
  .nullptr

/-- `FactoryErrorException::onUnknownType`. -/
def factoryErrorException (_id : Id) : Result Sig F :=
  .thrown (.invalidArgument "Unknown object type passed to Factory")

/-! ## The member functions -/

section Code

variable [DecidableEq Id] [DecidableEq Sig]

namespace FunctionTypes

/-- The constructor. -/
def ofType (type : F × Sig) : FunctionTypes Sig F :=
  ⟨[type]⟩

/-- `add`, with the answer. -/
def add (types : FunctionTypes Sig F) (type : F × Sig) : FunctionTypes Sig F × Bool :=
  if types.fs.any fun x => x.2 = type.2 then (types, false)
  else (⟨types.fs ++ [type]⟩, true)

/-- The loop of `get`. -/
def getFrom (signature : Sig) : List (F × Sig) → Except Exception F
  | [] => .error noMatchingFunction
  | (f, savedSignature) :: fs =>
    if signature = savedSignature then .ok f else getFrom signature fs

def get (types : FunctionTypes Sig F) (signature : Sig) : Except Exception F :=
  getFrom signature types.fs

end FunctionTypes

def init : State Id Sig F where
  associations := fun _ => none

variable (typeOf : F → Sig) (onUnknownType : Id → Result Sig F)

def registerCreator (s : State Id Sig F) (id : Id) (creator : F) :
    State Id Sig F × Result Sig F :=
  match s.associations id with
  | some types =>
    match types.add (creator, typeOf creator) with
    | (types', true) => (⟨Function.update s.associations id (some types')⟩, .returned true)
    | (_, false) => (s, .thrown alreadyExists)
  | none =>
    (⟨Function.update s.associations id (some (.ofType (creator, typeOf creator)))⟩,
      .returned true)

/-- `erase` answers how many there were. -/
def unregisterCreator (s : State Id Sig F) (id : Id) : State Id Sig F × Result Sig F :=
  (⟨Function.update s.associations id none⟩, .returned (s.associations id).isSome)

/-- `get` takes the arguments by value. The copies it is called with, which are all it does with
them, are left out. -/
def createObject (s : State Id Sig F) (id : Id) (signature : Sig) : Result Sig F :=
  match s.associations id with
  | some types =>
    match types.get signature with
    | .ok creator => .called creator signature
    | .error exception => .thrown exception
  | none => onUnknownType id

def call (s : State Id Sig F) : Call Id Sig F → State Id Sig F × Result Sig F
  | .registerCreator id creator => registerCreator typeOf s id creator
  | .unregisterCreator id => unregisterCreator s id
  | .createObject id signature => (s, createObject onUnknownType s id signature)

/-- One call with its result. -/
def step [DecidableEq F] (s : State Id Sig F) (entry : Call Id Sig F × Result Sig F) :
    Option (State Id Sig F) :=
  if (call typeOf onUnknownType s entry.1).2 = entry.2 then
    some (call typeOf onUnknownType s entry.1).1
  else none

end Code

/-! ## The flat map -/

/-- What the factory is for: a map from identifiers and signatures to creators. -/
def Flat (Id Sig F : Type u) : Type u := Id → Sig → Option F

namespace Flat

variable [DecidableEq Id] [DecidableEq Sig] (typeOf : F → Sig)
  (onUnknownType : Id → Result Sig F)

def empty : Flat Id Sig F := fun _ _ => none

def insert (m : Flat Id Sig F) (id : Id) (signature : Sig) (creator : F) : Flat Id Sig F :=
  fun id' signature' =>
    if id' = id ∧ signature' = signature then some creator else m id' signature'

theorem insert_apply (m : Flat Id Sig F) (id id' : Id) (signature signature' : Sig) (creator : F) :
    m.insert id signature creator id' signature' =
      if id' = id ∧ signature' = signature then some creator else m id' signature' := rfl

theorem insert_eq_some {m : Flat Id Sig F} {id id' : Id} {signature signature' : Sig}
    {creator creator' : F} (hnew : m id signature = none) :
    m.insert id signature creator id' signature' = some creator' ↔
      (id' = id ∧ signature' = signature ∧ creator = creator') ∨
        m id' signature' = some creator' := by
  rw [insert_apply]
  by_cases h : id' = id ∧ signature' = signature
  · obtain ⟨rfl, rfl⟩ := h
    simp [hnew]
  · rw [if_neg h]
    constructor
    · exact .inr
    · rintro (⟨hid, hsig, -⟩ | hold)
      · exact absurd ⟨hid, hsig⟩ h
      · exact hold

/-- Remove all creators of an identifier. -/
def remove (m : Flat Id Sig F) (id : Id) : Flat Id Sig F :=
  fun id' signature => if id' = id then none else m id' signature

omit [DecidableEq Sig] in
theorem remove_apply (m : Flat Id Sig F) (id id' : Id) (signature : Sig) :
    m.remove id id' signature = if id' = id then none else m id' signature := rfl

/-- The identifier has a creator. -/
def Has (m : Flat Id Sig F) (id : Id) : Prop :=
  ∃ signature creator, m id signature = some creator

open Classical in
/-- What the calls of the factory are to do. -/
noncomputable def call (m : Flat Id Sig F) : Call Id Sig F → Flat Id Sig F × Result Sig F
  | .registerCreator id creator =>
    if (m id (typeOf creator)).isSome then (m, .thrown alreadyExists)
    else (m.insert id (typeOf creator) creator, .returned true)
  | .unregisterCreator id => (m.remove id, .returned (decide (m.Has id)))
  | .createObject id signature =>
    match m id signature with
    | some creator => (m, .called creator signature)
    | none => (m, if m.Has id then .thrown noMatchingFunction else onUnknownType id)

open Classical in
/-- One call with its result. -/
noncomputable def step (m : Flat Id Sig F) (entry : Call Id Sig F × Result Sig F) :
    Option (Flat Id Sig F) :=
  if (call typeOf onUnknownType m entry.1).2 = entry.2 then
    some (call typeOf onUnknownType m entry.1).1
  else none

end Flat

/-! ## The factory is the flat map -/

section Refinement

variable [DecidableEq Id] [DecidableEq Sig] {typeOf : F → Sig}
  {onUnknownType : Id → Result Sig F} {s : State Id Sig F}

/-- The creator that `get` finds. -/
def FunctionTypes.lookup (types : FunctionTypes Sig F) (signature : Sig) : Option F :=
  (types.get signature).toOption

/-- The factory as a flat map. -/
def State.flat (s : State Id Sig F) : Flat Id Sig F :=
  fun id signature => (s.associations id).bind fun types => types.lookup signature

/-- What holds of the creators of an identifier. -/
structure FunctionTypes.Ok (typeOf : F → Sig) (types : FunctionTypes Sig F) : Prop where
  /-- there is one -/
  nonempty : types.fs ≠ []
  /-- there is at most one for each signature -/
  once : (types.fs.map Prod.snd).Nodup
  /-- each is kept with the type it has -/
  tagged : ∀ p ∈ types.fs, p.2 = typeOf p.1

/-- All identifiers that are there have creators that are kept right. -/
def WellFormed (typeOf : F → Sig) (s : State Id Sig F) : Prop :=
  ∀ id types, s.associations id = some types → types.Ok typeOf

namespace FunctionTypes

variable {types : FunctionTypes Sig F} {signature signature' : Sig} {creator : F}

/-- `get` throws one exception only. -/
theorem get_eq : types.get signature =
    match types.lookup signature with
    | some creator => .ok creator
    | none => .error noMatchingFunction := by
  have hloop : ∀ fs : List (F × Sig), getFrom signature fs =
      match (getFrom signature fs).toOption with
      | some creator => .ok creator
      | none => .error noMatchingFunction := by
    intro fs
    induction fs with
    | nil => rfl
    | cons p fs ih =>
      rw [getFrom]
      split
      · rfl
      · exact ih
  exact hloop types.fs

/-- `get` finds a creator if one has been kept with the signature. -/
theorem lookup_isSome : (types.lookup signature).isSome = types.fs.any fun x => x.2 = signature := by
  obtain ⟨fs⟩ := types
  induction fs with
  | nil => rfl
  | cons p fs ih =>
    by_cases hp : signature = p.2
    · simp [lookup, get, getFrom, hp, Except.toOption]
    · have hp' : ¬ p.2 = signature := fun h => hp h.symm
      simpa [lookup, get, getFrom, hp, hp'] using ih

theorem lookup_ofType : (ofType (creator, signature)).lookup signature' =
    if signature' = signature then some creator else none := by
  simp only [lookup, get, ofType, getFrom]
  split <;> rfl

/-- A creator of a new signature is found under it, and the others are found as before. -/
theorem lookup_concat (hnew : types.lookup signature = none) :
    (⟨types.fs ++ [(creator, signature)]⟩ : FunctionTypes Sig F).lookup signature' =
      if signature' = signature then some creator else types.lookup signature' := by
  obtain ⟨fs⟩ := types
  induction fs with
  | nil =>
    simp only [lookup, get, List.nil_append, getFrom]
    split <;> rfl
  | cons p fs ih =>
    by_cases hp : signature = p.2
    · simp [lookup, get, getFrom, hp, Except.toOption] at hnew
    · simp only [lookup, get, getFrom, hp, if_false] at hnew
      by_cases hp' : signature' = p.2
      · have hne : p.2 ≠ signature := fun h => hp h.symm
        simp [lookup, get, getFrom, hp', hne]
      · simpa [lookup, get, getFrom, hp'] using ih hnew

theorem add_of_isSome (h : (types.lookup signature).isSome) :
    types.add (creator, signature) = (types, false) := by
  rw [lookup_isSome] at h
  rw [add, if_pos h]

theorem add_of_isNone (h : types.lookup signature = none) :
    types.add (creator, signature) = (⟨types.fs ++ [(creator, signature)]⟩, true) := by
  have hany : ¬ (types.fs.any fun x => x.2 = signature) = true := by
    rw [← lookup_isSome, h]
    exact Bool.false_ne_true
  rw [add, if_neg hany]

omit [DecidableEq Sig] in
theorem Ok.ofType (creator : F) : (ofType (creator, typeOf creator)).Ok typeOf where
  nonempty := List.cons_ne_nil _ _
  once := List.pairwise_singleton _ _
  tagged := fun p hp => by
    rw [List.mem_singleton.mp hp]

theorem Ok.concat (h : types.Ok typeOf) (hnew : types.lookup (typeOf creator) = none) :
    Ok typeOf ⟨types.fs ++ [(creator, typeOf creator)]⟩ where
  nonempty := List.append_ne_nil_of_left_ne_nil h.nonempty _
  once := by
    have hmem : typeOf creator ∉ types.fs.map Prod.snd := by
      intro hmem
      obtain ⟨p, hp, hpt⟩ := List.mem_map.mp hmem
      have hsome : (types.lookup (typeOf creator)).isSome := by
        rw [lookup_isSome]
        exact List.any_eq_true.mpr ⟨p, hp, decide_eq_true hpt⟩
      rw [hnew] at hsome
      cases hsome
    rw [List.map_append, List.nodup_append]
    refine ⟨h.once, List.pairwise_singleton _ _, ?_⟩
    rintro signature hsig signature' hsig' rfl
    rw [List.mem_singleton.mp hsig'] at hsig
    exact hmem hsig
  tagged := fun p hp => by
    rcases List.mem_append.mp hp with hp | hp
    · exact h.tagged p hp
    · rw [List.mem_singleton.mp hp]

end FunctionTypes

omit [DecidableEq Id] [DecidableEq Sig] in
theorem wellFormed_init : WellFormed typeOf (init : State Id Sig F) := nofun

omit [DecidableEq Sig] in
theorem wellFormed_update {id : Id} {types : Option (FunctionTypes Sig F)}
    (hs : WellFormed typeOf s) (htypes : ∀ t, types = some t → t.Ok typeOf) :
    WellFormed typeOf (⟨Function.update s.associations id types⟩ : State Id Sig F) := by
  intro id' t ht
  by_cases hid : id' = id
  · subst hid
    exact htypes t (by simpa using ht)
  · exact hs id' t (by simpa [hid] using ht)

theorem flat_update {id : Id} {types : Option (FunctionTypes Sig F)} (id' : Id) (signature : Sig) :
    (⟨Function.update s.associations id types⟩ : State Id Sig F).flat id' signature =
      if id' = id then types.bind fun t => t.lookup signature else s.flat id' signature := by
  by_cases hid : id' = id
  · subst hid
    simp [State.flat]
  · simp [State.flat, hid]

omit [DecidableEq Id] in
/-- An identifier is there if it has a creator. -/
theorem has_iff (hs : WellFormed typeOf s) (id : Id) :
    s.flat.Has id ↔ (s.associations id).isSome := by
  constructor
  · rintro ⟨signature, creator, h⟩
    obtain ⟨types, htypes, -⟩ := Option.bind_eq_some_iff.mp h
    exact Option.isSome_iff_exists.mpr ⟨types, htypes⟩
  · intro h
    obtain ⟨types, htypes⟩ := Option.isSome_iff_exists.mp h
    obtain ⟨p, fs, hfs⟩ := List.exists_cons_of_ne_nil (hs id types htypes).nonempty
    have hsome : (types.lookup p.2).isSome := by
      rw [FunctionTypes.lookup_isSome, hfs]
      simp
    obtain ⟨creator, hcreator⟩ := Option.isSome_iff_exists.mp hsome
    exact ⟨p.2, creator, by rw [State.flat, htypes]; exact hcreator⟩

/-- A creator of a new signature is inserted. -/
theorem insert_refines {id : Id} {creator : F} {types : FunctionTypes Sig F}
    (hs : WellFormed typeOf s) (hok : types.Ok typeOf)
    (hlookup : ∀ signature, types.lookup signature =
      if signature = typeOf creator then some creator else s.flat id signature) :
    WellFormed typeOf (⟨Function.update s.associations id (some types)⟩ : State Id Sig F) ∧
      (⟨Function.update s.associations id (some types)⟩ : State Id Sig F).flat =
        s.flat.insert id (typeOf creator) creator := by
  refine ⟨wellFormed_update hs fun t ht => ?_, ?_⟩
  · obtain rfl := Option.some.inj ht
    exact hok
  · funext id' signature
    rw [flat_update, Flat.insert_apply]
    by_cases hid : id' = id
    · subst hid
      simp [hlookup]
    · simp [hid]

/-- A creator of a signature that is there is refused. -/
theorem registerCreator_refused {id : Id} {creator : F}
    (h : (s.flat id (typeOf creator)).isSome) :
    registerCreator typeOf s id creator = (s, .thrown alreadyExists) := by
  obtain ⟨other, hother⟩ := Option.isSome_iff_exists.mp h
  obtain ⟨types, htypes, hlookup⟩ := Option.bind_eq_some_iff.mp hother
  have hsome : (types.lookup (typeOf creator)).isSome := by
    rw [hlookup]
    rfl
  simp only [registerCreator, htypes, FunctionTypes.add_of_isSome hsome]

/-- **`registerCreator`** on both of its paths. -/
theorem registerCreator_refines (onUnknownType : Id → Result Sig F) (hs : WellFormed typeOf s)
    (id : Id) (creator : F) :
    WellFormed typeOf (registerCreator typeOf s id creator).1 ∧
      ((registerCreator typeOf s id creator).1.flat, (registerCreator typeOf s id creator).2) =
        Flat.call typeOf onUnknownType s.flat (.registerCreator id creator) := by
  cases hid : s.associations id with
  | none =>
    -- the first creator of the identifier
    have hflat : ∀ signature, s.flat id signature = none := by
      intro signature
      rw [State.flat, hid]
      rfl
    simp only [registerCreator, hid, Flat.call, hflat]
    have hlookup : ∀ signature, (FunctionTypes.ofType (creator, typeOf creator)).lookup signature =
        if signature = typeOf creator then some creator else s.flat id signature := by
      intro signature
      rw [hflat]
      exact FunctionTypes.lookup_ofType
    obtain ⟨hwf, hins⟩ := insert_refines hs (.ofType creator) hlookup
    exact ⟨hwf, Prod.ext hins rfl⟩
  | some types =>
    have hflat : ∀ signature, s.flat id signature = types.lookup signature := by
      intro signature
      rw [State.flat, hid]
      rfl
    cases hlookup : types.lookup (typeOf creator) with
    | some other =>
      have hsome : (s.flat id (typeOf creator)).isSome := by
        rw [hflat, hlookup]
        rfl
      rw [registerCreator_refused hsome, Flat.call, if_pos hsome]
      exact ⟨hs, rfl⟩
    | none =>
      simp only [registerCreator, hid, FunctionTypes.add_of_isNone hlookup, Flat.call, hflat,
        hlookup]
      obtain ⟨hwf, hins⟩ := insert_refines hs ((hs id types hid).concat hlookup)
        fun signature => by
          rw [hflat]
          exact FunctionTypes.lookup_concat hlookup
      exact ⟨hwf, Prod.ext hins rfl⟩

theorem unregisterCreator_refines (onUnknownType : Id → Result Sig F) (hs : WellFormed typeOf s)
    (id : Id) :
    WellFormed typeOf (unregisterCreator s id).1 ∧
      ((unregisterCreator s id).1.flat, (unregisterCreator s id).2) =
        Flat.call typeOf onUnknownType s.flat (.unregisterCreator id) := by
  classical
  refine ⟨wellFormed_update hs nofun, ?_⟩
  have hflat : (unregisterCreator s id).1.flat = s.flat.remove id := by
    funext id' signature
    rw [unregisterCreator, flat_update]
    rfl
  have hres : (unregisterCreator s id).2 = .returned (decide (s.flat.Has id)) := by
    rw [unregisterCreator]
    simp [has_iff hs]
  rw [hflat, hres]
  rfl

theorem createObject_refines (onUnknownType : Id → Result Sig F) (hs : WellFormed typeOf s)
    (id : Id) (signature : Sig) :
    (s.flat, createObject onUnknownType s id signature) =
      Flat.call typeOf onUnknownType s.flat (.createObject id signature) := by
  have hhas := has_iff hs id
  cases hid : s.associations id with
  | none =>
    have hnone : s.flat id signature = none := by
      rw [State.flat, hid]
      rfl
    rw [hid] at hhas
    simp [Flat.call, createObject, hid, hnone, hhas]
  | some types =>
    have hlookup : s.flat id signature = types.lookup signature := by
      rw [State.flat, hid]
      rfl
    rw [hid] at hhas
    rw [createObject, hid]
    simp only [FunctionTypes.get_eq, Flat.call, hlookup]
    cases types.lookup signature with
    | none => simp [hhas]
    | some creator => rfl

/-- One call. -/
theorem call_refines (onUnknownType : Id → Result Sig F) (hs : WellFormed typeOf s)
    (c : Call Id Sig F) :
    WellFormed typeOf (call typeOf onUnknownType s c).1 ∧
      ((call typeOf onUnknownType s c).1.flat, (call typeOf onUnknownType s c).2) =
        Flat.call typeOf onUnknownType s.flat c := by
  cases c with
  | registerCreator id creator => exact registerCreator_refines onUnknownType hs id creator
  | unregisterCreator id => exact unregisterCreator_refines onUnknownType hs id
  | createObject id signature => exact ⟨hs, createObject_refines onUnknownType hs id signature⟩

theorem step_refines [DecidableEq F] {s' : State Id Sig F} {entry : Call Id Sig F × Result Sig F}
    (hs : WellFormed typeOf s) (hstep : step typeOf onUnknownType s entry = some s') :
    WellFormed typeOf s' ∧ Flat.step typeOf onUnknownType s.flat entry = some s'.flat := by
  obtain ⟨hwf, hcall⟩ := call_refines onUnknownType hs entry.1
  obtain ⟨hres, hstate⟩ := Option.ite_none_right_eq_some.mp hstep
  obtain rfl := Option.some.inj hstate
  refine ⟨hwf, ?_⟩
  rw [Flat.step, ← hcall, if_pos hres]

/-! ## What has been accepted -/

/-- The creator was accepted, and since then its identifier has not been unregistered. -/
def Accepted (typeOf : F → Sig) (past : List (Call Id Sig F × Result Sig F)) (id : Id)
    (signature : Sig) (creator : F) : Prop :=
  typeOf creator = signature ∧
    Machine.Since (fun entry => entry = (.registerCreator id creator, .returned true))
      (fun entry => entry.1 ≠ .unregisterCreator id) past

omit [DecidableEq Id] [DecidableEq Sig] in
theorem accepted_concat {past : List (Call Id Sig F × Result Sig F)}
    {entry : Call Id Sig F × Result Sig F} {id : Id} {signature : Sig} {creator : F} :
    Accepted typeOf (past ++ [entry]) id signature creator ↔
      typeOf creator = signature ∧ entry = (.registerCreator id creator, .returned true) ∨
        Accepted typeOf past id signature creator ∧ entry.1 ≠ .unregisterCreator id := by
  rw [Accepted, Machine.since_concat, and_or_left, Accepted, and_assoc]

/-- One call of the flat map accepts what it inserts. -/
theorem flatStep_accepted {past : List (Call Id Sig F × Result Sig F)} {m m' : Flat Id Sig F}
    {entry : Call Id Sig F × Result Sig F}
    (hm : ∀ id signature creator, m id signature = some creator ↔
      Accepted typeOf past id signature creator)
    (hstep : Flat.step typeOf onUnknownType m entry = some m') (id : Id) (signature : Sig)
    (creator : F) :
    m' id signature = some creator ↔
      Accepted typeOf (past ++ [entry]) id signature creator := by
  rw [accepted_concat, ← hm]
  obtain ⟨c, r⟩ := entry
  obtain ⟨hres, hstate⟩ := Option.ite_none_right_eq_some.mp hstep
  obtain rfl := Option.some.inj hstate
  obtain rfl : (Flat.call typeOf onUnknownType m c).2 = r := hres
  cases c with
  | registerCreator id' creator' =>
    by_cases hsome : (m id' (typeOf creator')).isSome
    · simp [Flat.call, hsome]
    · rw [Flat.call, if_neg hsome]
      rw [Flat.insert_eq_some (Option.not_isSome_iff_eq_none.mp hsome)]
      refine or_congr ?_ (by simp)
      constructor
      · rintro ⟨rfl, rfl, rfl⟩
        exact ⟨rfl, rfl⟩
      · rintro ⟨rfl, hentry⟩
        cases hentry
        exact ⟨rfl, rfl, rfl⟩
  | unregisterCreator id' =>
    by_cases hid : id = id'
    · simp [Flat.call, Flat.remove_apply, hid]
    · have hid' : id' ≠ id := fun h => hid h.symm
      simp [Flat.call, Flat.remove_apply, hid, hid']
  | createObject id' signature' =>
    rw [Flat.call]
    cases m id' signature' <;> simp

/-- **The flat map is what has been accepted** since it was last unregistered. -/
theorem flat_accepted {past : List (Call Id Sig F × Result Sig F)} {m : Flat Id Sig F}
    (hrun : Machine.run (Flat.step typeOf onUnknownType) Flat.empty past = some m) (id : Id)
    (signature : Sig) (creator : F) :
    m id signature = some creator ↔ Accepted typeOf past id signature creator := by
  have hinv : ∀ id signature creator, m id signature = some creator ↔
      Accepted typeOf ([] ++ past) id signature creator := by
    refine Machine.run_invariant_past (I := fun past m => ∀ id signature creator,
      m id signature = some creator ↔ Accepted typeOf past id signature creator) ?_ ?_ hrun
    · intro past m entry m' hm hstep
      exact flatStep_accepted hm hstep
    · intro id signature creator
      exact iff_of_false nofun fun h => Machine.not_since_nil h.2
  exact hinv id signature creator

/-! ## The factory as its users see it -/

/-- What the calls do, in terms of what has been accepted. -/
structure Behaves (typeOf : F → Sig) (onUnknownType : Id → Result Sig F)
    (past : List (Call Id Sig F × Result Sig F)) (s : State Id Sig F) : Prop where
  /-- an identifier that is there has creators, at most one for each signature -/
  kept : ∀ id types, s.associations id = some types → types.Ok typeOf
  flat : ∀ id signature creator, s.flat id signature = some creator ↔
    Accepted typeOf past id signature creator
  /-- a second creator is refused, and nothing changes -/
  refuses : ∀ id creator, (∃ other, Accepted typeOf past id (typeOf creator) other) →
    registerCreator typeOf s id creator = (s, .thrown alreadyExists)
  accepts : ∀ id creator, (¬ ∃ other, Accepted typeOf past id (typeOf creator) other) →
    (registerCreator typeOf s id creator).2 = .returned true ∧
      (registerCreator typeOf s id creator).1.flat = s.flat.insert id (typeOf creator) creator
  /-- all creators of the identifier are removed, and no other -/
  removes : ∀ id, (unregisterCreator s id).1.flat = s.flat.remove id
  tells : ∀ id, (∃ signature creator, Accepted typeOf past id signature creator) ∧
      (unregisterCreator s id).2 = .returned true ∨
    (¬ ∃ signature creator, Accepted typeOf past id signature creator) ∧
      (unregisterCreator s id).2 = .returned false
  /-- the creator that is called has the type it is called as -/
  creates : ∀ id signature creator, Accepted typeOf past id signature creator →
    createObject onUnknownType s id signature = .called creator signature ∧
      typeOf creator = signature
  mismatch : ∀ id signature, (¬ ∃ creator, Accepted typeOf past id signature creator) →
    (∃ signature' creator, Accepted typeOf past id signature' creator) →
      createObject onUnknownType s id signature = .thrown noMatchingFunction
  unknown : ∀ id signature, (¬ ∃ signature' creator, Accepted typeOf past id signature' creator) →
    createObject onUnknownType s id signature = onUnknownType id

theorem behaves_of_flat {past : List (Call Id Sig F × Result Sig F)} (hs : WellFormed typeOf s)
    (hflat : ∀ id signature creator, s.flat id signature = some creator ↔
      Accepted typeOf past id signature creator) :
    Behaves typeOf onUnknownType past s := by
  classical
  have hsome : ∀ {id signature}, (s.flat id signature).isSome ↔
      ∃ creator, Accepted typeOf past id signature creator := by
    intro id signature
    simp only [Option.isSome_iff_exists, hflat]
  have hhas : ∀ {id}, s.flat.Has id ↔
      ∃ signature creator, Accepted typeOf past id signature creator := by
    intro id
    simp only [Flat.Has, hflat]
  refine ⟨hs, hflat, ?_, ?_, ?_, ?_, ?_, ?_, ?_⟩
  · intro id creator h
    exact registerCreator_refused (hsome.mpr h)
  · intro id creator h
    have hcall := (registerCreator_refines onUnknownType hs id creator).2
    rw [Flat.call, if_neg (mt hsome.mp h)] at hcall
    exact ⟨congrArg Prod.snd hcall, congrArg Prod.fst hcall⟩
  · intro id
    have hcall := (unregisterCreator_refines onUnknownType hs id).2
    exact congrArg Prod.fst hcall
  · intro id
    have hcall := congrArg Prod.snd (unregisterCreator_refines onUnknownType hs id).2
    by_cases h : s.flat.Has id
    · exact .inl ⟨hhas.mp h, hcall.trans (by simp [Flat.call, h])⟩
    · exact .inr ⟨mt hhas.mpr h, hcall.trans (by simp [Flat.call, h])⟩
  · intro id signature creator h
    have hcall := congrArg Prod.snd (createObject_refines onUnknownType hs id signature)
    exact ⟨hcall.trans (by simp [Flat.call, (hflat id signature creator).mpr h]), h.1⟩
  · intro id signature hnot h
    have hcall := congrArg Prod.snd (createObject_refines onUnknownType hs id signature)
    have hnone : s.flat id signature = none := Option.not_isSome_iff_eq_none.mp (mt hsome.mp hnot)
    exact hcall.trans (by simp [Flat.call, hnone, hhas.mpr h])
  · intro id signature h
    have hcall := congrArg Prod.snd (createObject_refines onUnknownType hs id signature)
    have hnot : ¬ s.flat.Has id := mt hhas.mp h
    have hnone : s.flat id signature = none :=
      Option.eq_none_iff_forall_ne_some.mpr fun creator hc => hnot ⟨signature, creator, hc⟩
    exact hcall.trans (by simp [Flat.call, hnone, hnot])

variable [DecidableEq F] {past : List (Call Id Sig F × Result Sig F)}

/-- **The factory refines the flat map.** Its calls and results are calls and results of
the flat map, and each next call does what it is to do by what has been accepted. -/
theorem factory_refines (hrun : Machine.run (step typeOf onUnknownType) init past = some s) :
    Machine.run (Flat.step typeOf onUnknownType) Flat.empty past = some s.flat ∧
      Behaves typeOf onUnknownType past s := by
  obtain ⟨hwf, hflat⟩ : WellFormed typeOf s ∧
      Machine.run (Flat.step typeOf onUnknownType) (init : State Id Sig F).flat past =
        some s.flat := by
    refine Machine.run_simulates ?_ wellFormed_init hrun
    intro t entry t' ht hstep
    exact step_refines ht hstep
  exact ⟨hflat, behaves_of_flat hwf (flat_accepted hflat)⟩

/-- Calls of a factory of fruits; the signature of a creator `n` is `n % 3`. -/
def fruitCalls : List (Call String ℕ ℕ × Result ℕ ℕ) :=
  [(.registerCreator "Apple" 0, .returned true), (.registerCreator "Apple" 1, .returned true),
    (.registerCreator "Apple" 3, .thrown alreadyExists),
    (.registerCreator "Banana" 6, .returned true), (.createObject "Apple" 1, .called 1 1),
    (.createObject "Banana" 1, .thrown noMatchingFunction),
    (.createObject "Unknown" 0, .nullptr), (.unregisterCreator "Apple", .returned true),
    (.registerCreator "Apple" 3, .returned true), (.createObject "Apple" 0, .called 3 0)]

/-- A second creator of a signature is refused until its identifier has been unregistered. -/
theorem factory_refines_fruits :
    ∃ s, Machine.run (step (· % 3) factoryErrorNullptr) init fruitCalls = some s ∧
      createObject factoryErrorNullptr s "Apple" 1 = .thrown noMatchingFunction ∧
      Behaves (· % 3) factoryErrorNullptr fruitCalls s :=
  ⟨_, rfl, rfl, (factory_refines rfl).2⟩

/-- Every sequence of calls has its results. -/
theorem run_exists (s : State Id Sig F) (calls : List (Call Id Sig F)) :
    ∃ past s', past.map Prod.fst = calls ∧
      Machine.run (step typeOf onUnknownType) s past = some s' := by
  induction calls generalizing s with
  | nil => exact ⟨[], s, rfl, rfl⟩
  | cons c calls ih =>
    obtain ⟨past, s', hcalls, hrun⟩ := ih (call typeOf onUnknownType s c).1
    have hstep : step typeOf onUnknownType s (c, (call typeOf onUnknownType s c).2) =
        some (call typeOf onUnknownType s c).1 := if_pos rfl
    refine ⟨(c, (call typeOf onUnknownType s c).2) :: past, s', ?_, ?_⟩
    · rw [List.map_cons, hcalls]
    · rw [Machine.run_cons_some hstep]
      exact hrun

end Refinement

end Factory

end CppPlayground
