import CppPlayground.DelegateSound

/-!
# Does a functor assignment work?

After `d = f` the delegate `d` should have a block with room for `f`, call `f`, and leave alone
what other delegates call that were copied from it or to it.

What is said of the members of a delegate in every state is that its `store_size_` is the size of
the block it owns (`Valid`). It says nothing of a delegate that owns none: after `reset`, or after
the delegate was moved from, `store_size_` still is that of the block it had, and a functor that
would have fit in there is constructed at a null pointer. And a delegate that was moved from keeps
its `object_ptr_` and its stub: it goes on calling the functor in a block that it does not own,
until the owner puts another functor there or gives the block up.

These are the only two ways for an assignment not to work (`assign_works_iff`).
-/

namespace CppPlayground

namespace Delegate

universe u

variable {T : Type u}

/-! ## The property -/

/-- What a delegate calls: the functor that lives where `object_ptr_` points to, as an object of
the type of the stub. -/
def State.calls (s : State T) (i : ℕ) : Option (ℕ × T) :=
  (s.delegates i).bind fun m => m.stubPtr.bind fun type => m.objectPtr.bind fun b =>
    (s.alive b).map fun id => (id, type)

/-- **A functor assignment works**: it leads from `s` to `s'`, and the delegates in question do
not change what they call. -/
structure AssignWorks (size : T → ℕ) (i : ℕ) (type : T) (others : ℕ → Prop) (s s' : State T) :
    Prop where
  isDefined : s'.undefined = false
  /-- the functor is constructed -/
  placed : s'.placed = s.placed ++ [type]
  /-- it is in a block of the delegate, which is large enough -/
  room : ∃ b block, s'.storeOf i = some b ∧ s'.blocks b = some block ∧
    size type ≤ block.size ∧ block.functor = some s.placed.length
  /-- the delegate calls it -/
  calls : s'.calls i = some (s.placed.length, type)
  others : ∀ j, j ≠ i → others j → s'.calls j = s.calls j

/-- The delegate that an action copies to, and the one it copies from. -/
def copied (s : State T) : Action T → List (ℕ × ℕ)
  | .copyConstruct j => [(s.nextDelegate, j)]
  | .copyAssign i j => [(i, j)]
  | _ => []

/-- What is copied in a run. -/
def copies (size : T → ℕ) : State T → List (Action T) → List (ℕ × ℕ)
  | _, [] => []
  | s, a :: as => copied s a ++ ((step size s a).map fun s' => copies size s' as).getD []

/-- In the run one of two delegates was copied from the other. -/
def CopyRelated (size : T → ℕ) (as : List (Action T)) (i j : ℕ) : Prop :=
  (i, j) ∈ copies size init as ∨ (j, i) ∈ copies size init as

/-- A delegate would call what is in a block. -/
def State.pointsInto (s : State T) (j b : ℕ) : Prop :=
  ∃ m, s.delegates j = some m ∧ m.objectPtr = some b ∧ m.stubPtr ≠ none

/-! ## Members that are in step -/

/-- The members of a delegate are in step with the blocks; the block `pending` has no functor
yet. -/
structure Fits (pending : Option ℕ) (s : State T) (m : Members T) : Prop where
  object : ∀ b, m.objectPtr = some b → b < s.nextBlock
  store : ∀ b, m.store = some b → ∃ block, s.blocks b = some block ∧ block.size = m.storeSize ∧
    (some b ≠ pending → ∃ id, block.functor = some id)

/-- All members are in step. -/
structure Valid (pending : Option ℕ) (s : State T) : Prop where
  isDefined : s.undefined = false
  names : ∀ i, s.nextDelegate ≤ i → s.delegates i = none
  fresh : ∀ b, s.nextBlock ≤ b → s.blocks b = none
  numbered : ∀ b block id, s.blocks b = some block → block.functor = some id →
    id < s.placed.length
  fits : ∀ i m, s.delegates i = some m → Fits pending s m

theorem valid_init : Valid none (init : State T) where
  isDefined := rfl
  names := fun _ _ => rfl
  fresh := fun _ _ => rfl
  numbered := nofun
  fits := nofun

variable {s : State T} {pending pending' : Option ℕ} {i b : ℕ} {m : Members T} {block : Block T}

theorem delegates_setDelegate_self (x : Option (Members T)) :
    (s.setDelegate i x).delegates i = x := by
  simp [State.setDelegate]

theorem delegates_setDelegate_ne {k : ℕ} (h : k ≠ i) (x : Option (Members T)) :
    (s.setDelegate i x).delegates k = s.delegates k := by
  simp [State.setDelegate, h]

theorem blocks_setBlock_self (x : Option (Block T)) : (s.setBlock b x).blocks b = x := by
  simp [State.setBlock]

theorem blocks_setBlock_ne {c : ℕ} (h : c ≠ b) (x : Option (Block T)) :
    (s.setBlock b x).blocks c = s.blocks c := by
  simp [State.setBlock, h]

theorem place_eq (hb : s.blocks b = some block) (type : T) : s.place b type =
    { s.setBlock b (some { block with functor := some s.placed.length }) with
      placed := s.placed ++ [type] } := by
  rw [State.place, hb]

theorem destruct_eq (hb : s.blocks b = some block) {id : ℕ} (hid : block.functor = some id)
    (type : T) : s.destruct b type =
    { s.setBlock b (some { block with functor := none }) with
      destroyed := s.destroyed ++ [(id, type)] } := by
  rw [State.destruct, hb]
  simp only [hid]

theorem delegates_addDelegate_self (m : Members T) :
    (s.addDelegate m).delegates s.nextDelegate = some m :=
  delegates_setDelegate_self (some m)

theorem delegates_addDelegate_ne {k : ℕ} (h : k ≠ s.nextDelegate) (m : Members T) :
    (s.addDelegate m).delegates k = s.delegates k :=
  delegates_setDelegate_ne h (some m)

namespace Valid

theorem lt_of_delegates (hs : Valid pending s) (h : s.delegates i = some m) :
    i < s.nextDelegate := by
  by_contra hlt
  rw [hs.names i (not_lt.mp hlt)] at h
  cases h

theorem lt_of_blocks (hs : Valid pending s) (h : s.blocks b = some block) : b < s.nextBlock := by
  by_contra hlt
  rw [hs.fresh b (not_lt.mp hlt)] at h
  cases h

/-- A delegate is changed or goes away. -/
theorem setDelegate (hs : Valid pending s) (hi : i < s.nextDelegate) {x : Option (Members T)}
    (hx : ∀ m, x = some m → Fits pending s m) : Valid pending (s.setDelegate i x) where
  isDefined := hs.isDefined
  names := by
    intro k hk
    rw [delegates_setDelegate_ne (lt_of_lt_of_le hi hk).ne']
    exact hs.names k hk
  fresh := hs.fresh
  numbered := hs.numbered
  fits := by
    intro k m hk
    by_cases hki : k = i
    · rw [hki, delegates_setDelegate_self] at hk
      exact ⟨(hx m hk).object, (hx m hk).store⟩
    · rw [delegates_setDelegate_ne hki] at hk
      exact ⟨(hs.fits k m hk).object, (hs.fits k m hk).store⟩

/-- A new delegate. -/
theorem addDelegate (hs : Valid pending s) (hm : Fits pending s m) :
    Valid pending (s.addDelegate m) where
  isDefined := hs.isDefined
  names := by
    intro k hk
    rw [delegates_addDelegate_ne (Nat.lt_of_succ_le hk).ne']
    exact hs.names k (Nat.le_of_succ_le hk)
  fresh := hs.fresh
  numbered := hs.numbered
  fits := by
    intro k m' hk
    by_cases hki : k = s.nextDelegate
    · rw [hki, delegates_addDelegate_self, Option.some_inj] at hk
      subst hk
      exact ⟨hm.object, hm.store⟩
    · rw [delegates_addDelegate_ne hki] at hk
      exact ⟨(hs.fits k m' hk).object, (hs.fits k m' hk).store⟩

/-- A block is changed or goes away, and functors may be constructed. -/
theorem setBlock (hs : Valid pending s) {s' : State T} {x : Option (Block T)}
    (hdelegates : s'.delegates = s.delegates) (hnames : s'.nextDelegate = s.nextDelegate)
    (hblocks : s'.blocks = (s.setBlock b x).blocks) (hdefined : s'.undefined = false)
    (hnext : s.nextBlock ≤ s'.nextBlock) (hfresh : x ≠ none → b < s'.nextBlock)
    (hplaced : s.placed.length ≤ s'.placed.length)
    (hnumbered : ∀ block id, x = some block → block.functor = some id → id < s'.placed.length)
    (howned : ∀ i m, s.delegates i = some m → m.store = some b → ∃ block, x = some block ∧
      block.size = m.storeSize ∧ (some b ≠ pending' → ∃ id, block.functor = some id))
    (hpending : ∀ c, c ≠ b → some c ≠ pending' → some c ≠ pending) : Valid pending' s' where
  isDefined := hdefined
  names := by
    intro k hk
    rw [hdelegates]
    exact hs.names k (hnames ▸ hk)
  fresh := by
    intro c hc
    rw [hblocks]
    by_cases hcb : c = b
    · subst hcb
      rw [blocks_setBlock_self]
      by_contra hx
      exact absurd (hfresh hx) (not_lt.mpr hc)
    · rw [blocks_setBlock_ne hcb]
      exact hs.fresh c (hnext.trans hc)
  numbered := by
    intro c block id hc hid
    rw [hblocks, blocks_setBlock_eq_some] at hc
    rcases hc with ⟨-, hx⟩ | ⟨-, hc⟩
    · exact hnumbered block id hx hid
    · exact (hs.numbered c block id hc hid).trans_le hplaced
  fits := by
    intro k m hk
    rw [hdelegates] at hk
    refine ⟨fun c hc => ((hs.fits k m hk).object c hc).trans_le hnext, ?_⟩
    intro c hc
    rw [hblocks]
    by_cases hcb : c = b
    · subst hcb
      rw [blocks_setBlock_self]
      exact howned k m hk hc
    · rw [blocks_setBlock_ne hcb]
      obtain ⟨block, hblock, hsize, hid⟩ := (hs.fits k m hk).store c hc
      exact ⟨block, hblock, hsize, fun hne => hid (hpending c hcb hne)⟩

/-- The block of a delegate is there, and a functor lives in it. -/
theorem exists_block (hs : Valid none s) (hm : s.delegates i = some m) (hb : m.store = some b) :
    ∃ block id, s.blocks b = some block ∧ block.functor = some id ∧
      block.size = m.storeSize := by
  obtain ⟨block, hblock, hsize, hid⟩ := (hs.fits i m hm).store b hb
  obtain ⟨id, hid⟩ := hid (Option.some_ne_none b)
  exact ⟨block, id, hblock, hid, hsize⟩

theorem allocate (hs : Valid none s) (n : ℕ) (type : T) :
    Valid (some s.nextBlock) (s.allocate n type) := by
  refine hs.setBlock (b := s.nextBlock) (x := some ⟨n, type, none⟩) rfl rfl rfl hs.isDefined
    (Nat.le_succ _) (fun _ => Nat.lt_succ_self _) le_rfl ?_ ?_ ?_
  · intro block id hblock hid
    cases hblock
    cases hid
  · intro k m hk hb
    obtain ⟨block, hblock, -⟩ := (hs.fits k m hk).store _ hb
    rw [hs.fresh _ le_rfl] at hblock
    cases hblock
  · intro c _ _ hc
    cases hc

theorem place (hs : Valid (some b) s) (hb : s.blocks b = some block) (type : T) :
    Valid none (s.place b type) := by
  have hlt : b < s.nextBlock := hs.lt_of_blocks hb
  rw [place_eq hb]
  refine hs.setBlock (b := b) rfl rfl rfl hs.isDefined le_rfl (fun _ => hlt) ?_ ?_ ?_ ?_
  · rw [List.length_append]
    exact Nat.le_add_right _ _
  · intro block' id hblock' hid
    cases hblock'
    cases hid
    rw [List.length_append]
    exact Nat.lt_succ_self _
  · intro k m hk hstore
    obtain ⟨block', hblock', hsize, -⟩ := (hs.fits k m hk).store b hstore
    rw [hb, Option.some_inj] at hblock'
    subst hblock'
    exact ⟨_, rfl, hsize, fun _ => ⟨_, rfl⟩⟩
  · intro c hc _ heq
    exact hc (Option.some.inj heq)

theorem destruct (hs : Valid none s) (hb : s.blocks b = some block) {id : ℕ}
    (hid : block.functor = some id) (type : T) : Valid (some b) (s.destruct b type) := by
  have hlt : b < s.nextBlock := hs.lt_of_blocks hb
  rw [destruct_eq hb hid]
  refine hs.setBlock (b := b) rfl rfl rfl hs.isDefined le_rfl (fun _ => hlt) le_rfl ?_ ?_ ?_
  · intro block' id' hblock' hid'
    cases hblock'
    cases hid'
  · intro k m hk hstore
    obtain ⟨block', hblock', hsize, -⟩ := (hs.fits k m hk).store b hstore
    rw [hb, Option.some_inj] at hblock'
    subst hblock'
    exact ⟨_, rfl, hsize, fun hne => absurd rfl hne⟩
  · intro c _ _ hc
    cases hc

/-- A block without owners goes away. -/
theorem releaseStore (hs : Valid pending s) {x : Option ℕ}
    (hx : ∀ b, x = some b → ∃ block id, s.blocks b = some block ∧ block.functor = some id) :
    Valid pending (s.releaseStore x) := by
  cases x with
  | none => exact hs
  | some b =>
    rw [State.releaseStore, State.release]
    split
    · rename_i hcount
      obtain ⟨block, id, hblock, hid⟩ := hx b rfl
      have hfree : (s.destruct b block.deleter).setBlock b none =
          { s.setBlock b none with destroyed := s.destroyed ++ [(id, block.deleter)] } := by
        simp [State.destruct, hblock, hid, State.setBlock]
      rw [hblock]
      simp only [hfree]
      refine hs.setBlock (b := b) rfl rfl rfl hs.isDefined le_rfl (absurd rfl) le_rfl ?_ ?_ ?_
      · intro block' id' hblock'
        cases hblock'
      · intro k m hk hstore
        exact absurd (storeOf_eq_some.mpr ⟨m, hk, hstore⟩)
          ((useCount_eq_zero_iff hs.names).mp hcount k)
      · intro c _ hc
        exact hc
    · exact hs

/-- A delegate is moved from: it keeps all members but its block. -/
theorem moveFrom (hs : Valid none s) (hm : s.delegates i = some m) :
    Valid none (s.setDelegate i (some { m with store := none })) := by
  apply hs.setDelegate (hs.lt_of_delegates hm)
  intro m' hm'
  cases hm'
  exact ⟨(hs.fits i m hm).object, nofun⟩

/-- A delegate is changed or goes away, and the block it had is released. -/
theorem replace (hs : Valid none s) (hm : s.delegates i = some m) {x : Option (Members T)}
    (hx : ∀ m', x = some m' → Fits none s m') :
    Valid none ((s.setDelegate i x).releaseStore m.store) := by
  apply (hs.setDelegate (hs.lt_of_delegates hm) hx).releaseStore
  intro b hb
  obtain ⟨block, id, hblock, hid, -⟩ := hs.exists_block hm hb
  exact ⟨block, id, hblock, hid⟩

end Valid

/-! ## A functor assignment -/

section Assign

variable {size : T → ℕ} {type : T}

/-- Releasing a block is no matter of the delegates, and constructs nothing. -/
theorem releaseStore_frame (x : Option ℕ) :
    (s.releaseStore x).delegates = s.delegates ∧ (s.releaseStore x).placed = s.placed := by
  cases x with
  | none => exact ⟨rfl, rfl⟩
  | some b =>
    simp only [State.releaseStore, State.release, State.destruct]
    repeat' split
    all_goals exact ⟨rfl, rfl⟩

theorem alive_releaseStore (x : Option ℕ) (c : ℕ) : (s.releaseStore x).alive c =
    if x = some c ∧ s.useCount c = 0 then none else s.alive c := by
  by_cases hx : x = some c
  · subst hx
    rw [State.releaseStore, State.release]
    by_cases hcount : s.useCount c = 0
    · rw [if_pos hcount, if_pos ⟨rfl, hcount⟩]
      cases hblock : s.blocks c with
      | none => simp [State.alive, hblock]
      | some block => simp [State.alive, State.setBlock]
    · rw [if_neg hcount, if_neg fun h => hcount h.2]
  · rw [if_neg fun h => hx h.1, State.alive, State.alive, blocks_releaseStore_ne hx]

/-- A delegate that leaves a block is one owner less. -/
theorem useCount_setDelegate (hi : i < s.nextDelegate) (hstore : s.storeOf i = some b)
    {x : Option (Members T)} (hx : x.bind Members.store ≠ some b) :
    s.useCount b = (s.setDelegate i x).useCount b + 1 := by
  have howners : (Finset.range s.nextDelegate).filter (fun k => s.storeOf k = some b) =
      insert i ((Finset.range s.nextDelegate).filter
        fun k => (s.setDelegate i x).storeOf k = some b) := by
    ext k
    by_cases hk : k = i
    · subst hk
      simp [hi, hstore]
    · simp [storeOf_setDelegate_ne hk, hk]
  have hleft : i ∉ (Finset.range s.nextDelegate).filter
      fun k => (s.setDelegate i x).storeOf k = some b := by
    rw [Finset.mem_filter, storeOf_setDelegate_self]
    exact fun h => hx h.2
  rw [State.useCount, howners, Finset.card_insert_of_notMem hleft]
  rfl

/-- What an assignment leads to if it does not use a null pointer. -/
structure Assigned (size : T → ℕ) (i : ℕ) (m : Members T) (type : T) (s s' : State T) : Prop where
  valid : Valid none s'
  placed : s'.placed = s.placed ++ [type]
  others : ∀ j, j ≠ i → s'.delegates j = s.delegates j
  self : ∃ b n block, s'.delegates i = some (owning b type n) ∧ s'.blocks b = some block ∧
    size type ≤ block.size ∧ block.functor = some s.placed.length
  /-- the functor in the former block lives on exactly if there is another owner -/
  alive : ∀ c, c < s.nextBlock →
    (s'.alive c = s.alive c ↔ ¬ (m.store = some c ∧ s.useCount c = 1))

theorem Fits.owning {n : ℕ} (hlt : b < s.nextBlock) (hb : s.blocks b = some block)
    (hsize : block.size = n) (hid : some b ≠ pending → ∃ id, block.functor = some id) :
    Fits pending s (owning b type n) where
  object := by
    intro c hc
    cases hc
    exact hlt
  store := by
    intro c hc
    cases hc
    exact ⟨block, hb, hsize, hid⟩

/-- The delegate has got a new block, which has no functor yet. -/
def reallocated (size : T → ℕ) (s : State T) (i : ℕ) (type : T) : State T :=
  (s.allocate (size type) type).setDelegate i (some (owning s.nextBlock type (size type)))

theorem reallocated_valid (hs : Valid none s) (hi : i < s.nextDelegate) :
    Valid (some s.nextBlock) (reallocated size s i type) := by
  apply (hs.allocate (size type) type).setDelegate hi
  intro m hm
  cases hm
  exact .owning (Nat.lt_succ_self _) (blocks_allocate _ _) rfl fun hne => absurd rfl hne

theorem blocks_reallocated_ne {c : ℕ} (hc : c ≠ s.nextBlock) :
    (reallocated size s i type).blocks c = s.blocks c :=
  blocks_setBlock_ne hc _

theorem useCount_reallocated (hs : Valid none s) (hm : s.delegates i = some m)
    (hb : m.store = some b) (hne : b ≠ s.nextBlock) :
    s.useCount b = (reallocated size s i type).useCount b + 1 := by
  have hcount := useCount_setDelegate (s := s.allocate (size type) type) (b := b)
    (x := some (owning s.nextBlock type (size type))) (hs.lt_of_delegates hm)
    (storeOf_eq_some.mpr ⟨m, hm, hb⟩) fun h => hne (Option.some.inj h).symm
  exact hcount

/-- The block that a delegate has had is not the next one. -/
theorem Valid.store_ne (hs : Valid none s) (hm : s.delegates i = some m) :
    m.store ≠ some s.nextBlock := by
  intro hb
  obtain ⟨block, -, hblock, -⟩ := hs.exists_block hm hb
  exact (hs.lt_of_blocks hblock).ne rfl

theorem Valid.exists_alive (hs : Valid none s) (hm : s.delegates i = some m)
    (hb : m.store = some b) : ∃ id, s.alive b = some id ∧ id < s.placed.length := by
  obtain ⟨block, id, hblock, hid, -⟩ := hs.exists_block hm hb
  refine ⟨id, ?_, hs.numbered b block id hblock hid⟩
  rw [State.alive, hblock]
  exact hid

/-- The functor gets a block of its own. -/
theorem assign_newBlock (hs : Valid none s) (hm : s.delegates i = some m)
    (hnew : reallocates size s m type = true) :
    Assigned size i m type s (assign size s i m type) := by
  have hne := hs.store_ne hm
  obtain ⟨s₃, hs₃⟩ : ∃ s₃, s₃ = (reallocated size s i type).releaseStore m.store := ⟨_, rfl⟩
  have hassign : assign size s i m type = s₃.place s.nextBlock type := by
    rw [assign, if_pos hnew, hs₃]
    rfl
  have hvalid : Valid (some s.nextBlock) s₃ := by
    rw [hs₃]
    apply (reallocated_valid hs (hs.lt_of_delegates hm)).releaseStore
    intro b hb
    obtain ⟨block, id, hblock, hid, -⟩ := hs.exists_block hm hb
    exact ⟨block, id, (blocks_reallocated_ne fun h => hne (h ▸ hb)).trans hblock, hid⟩
  have hblock : s₃.blocks s.nextBlock = some ⟨size type, type, none⟩ := by
    rw [hs₃, blocks_releaseStore_ne hne]
    exact blocks_allocate _ _
  have hplaced : s₃.placed = s.placed := by
    rw [hs₃, (releaseStore_frame _).2]
    rfl
  have hdelegates : s₃.delegates = (s.setDelegate i
      (some (owning s.nextBlock type (size type)))).delegates := by
    rw [hs₃, (releaseStore_frame _).1]
    rfl
  rw [hassign]
  refine ⟨hvalid.place hblock type, ?_, ?_, ?_, ?_⟩
  · rw [place_eq hblock, hplaced]
  · intro j hj
    rw [delegates_place, hdelegates, delegates_setDelegate_ne hj]
  · refine ⟨s.nextBlock, size type, ⟨size type, type, some s.placed.length⟩, ?_, ?_, le_rfl, rfl⟩
    · rw [delegates_place, hdelegates, delegates_setDelegate_self]
    · rw [place_eq hblock, hplaced]
      exact blocks_setBlock_self _
  · intro c hc
    have halive : (s₃.place s.nextBlock type).alive c =
        if m.store = some c ∧ (reallocated size s i type).useCount c = 0 then none
        else s.alive c := by
      have hkept : (s₃.place s.nextBlock type).alive c = s₃.alive c := by
        rw [State.alive, State.alive, place_eq hblock]
        exact congrArg (Option.bind · Block.functor) (blocks_setBlock_ne hc.ne _)
      have hbefore : (reallocated size s i type).alive c = s.alive c := by
        rw [State.alive, State.alive, blocks_reallocated_ne hc.ne]
      rw [hkept, hs₃, alive_releaseStore, hbefore]
    rw [halive]
    by_cases hb : m.store = some c
    · obtain ⟨id, hid, -⟩ := hs.exists_alive hm hb
      have hcounts : s.useCount c = (reallocated size s i type).useCount c + 1 :=
        useCount_reallocated hs hm hb hc.ne
      rw [hcounts, hid]
      by_cases hcount : (reallocated size s i type).useCount c = 0
      · simp [hb, hcount]
      · simp [hcount]
    · simp [hb]

/-- The functor is put in the place of the one before. -/
theorem assign_inPlace (hs : Valid none s) (hm : s.delegates i = some m)
    (hfit : reallocates size s m type = false) (hb : m.store = some b) :
    Assigned size i m type s (assign size s i m type) := by
  obtain ⟨block, id, hblock, hid, hsize⟩ := hs.exists_block hm hb
  have hassign : assign size s i m type = ((s.destruct b m.deleter).place b type).setDelegate i
      (some (owning b type m.storeSize)) := by
    rw [assign, if_neg (Bool.eq_false_iff.mp hfit), hb]
  have hempty : (s.destruct b m.deleter).blocks b = some { block with functor := none } := by
    rw [destruct_eq hblock hid]
    exact blocks_setBlock_self _
  have hplaced : (s.destruct b m.deleter).placed = s.placed := by
    rw [destruct_eq hblock hid]
    rfl
  have hroom : size type ≤ block.size ∧ s.useCount b = 1 := by
    rw [reallocates, Bool.or_eq_false_iff, decide_eq_false_iff_not, decide_eq_false_iff_not,
      storeCount, hb] at hfit
    have hpos : s.useCount b ≠ 0 := fun h =>
      (useCount_eq_zero_iff hs.names).mp h i (storeOf_eq_some.mpr ⟨m, hm, hb⟩)
    simp only at hfit
    omega
  have hfilled : ((s.destruct b m.deleter).place b type).blocks b =
      some { block with functor := some s.placed.length } := by
    rw [place_eq hempty, hplaced]
    exact blocks_setBlock_self _
  have hvalid : Valid none ((s.destruct b m.deleter).place b type) :=
    (hs.destruct hblock hid _).place hempty type
  rw [hassign]
  refine ⟨?_, ?_, ?_, ?_, ?_⟩
  · apply hvalid.setDelegate
    · rw [place_eq hempty, destruct_eq hblock hid]
      exact hs.lt_of_delegates hm
    · intro m' hm'
      cases hm'
      exact .owning (hvalid.lt_of_blocks hfilled) hfilled hsize fun _ => ⟨_, rfl⟩
  · rw [place_eq hempty, hplaced]
    rfl
  · intro j hj
    rw [delegates_setDelegate_ne hj, delegates_place, delegates_destruct]
  · exact ⟨b, m.storeSize, _, delegates_setDelegate_self _, hfilled, hroom.1, rfl⟩
  · intro c hc
    by_cases hcb : c = b
    · subst hcb
      obtain ⟨id', hid', hlt⟩ := hs.exists_alive hm hb
      have halive : (((s.destruct c m.deleter).place c type).setDelegate i
          (some (owning c type m.storeSize))).alive c = some s.placed.length :=
        congrArg (Option.bind · Block.functor) hfilled
      rw [halive, hid']
      simp [hb, hroom.2, hlt.ne']
    · have halive : (((s.destruct b m.deleter).place b type).setDelegate i
          (some (owning b type m.storeSize))).alive c = s.alive c := by
        have hkept : ((s.destruct b m.deleter).place b type).blocks c = s.blocks c := by
          rw [place_eq hempty, destruct_eq hblock hid]
          exact (blocks_setBlock_ne hcb _).trans (blocks_setBlock_ne hcb _)
        exact congrArg (Option.bind · Block.functor) hkept
      rw [halive, hb, Option.some_inj]
      simp [Ne.symm hcb]

/-- An assignment that has a block to use. -/
theorem assign_assigned (hs : Valid none s) (hm : s.delegates i = some m)
    (h : reallocates size s m type = true ∨ m.store ≠ none) :
    Assigned size i m type s (assign size s i m type) := by
  cases hnew : reallocates size s m type with
  | true => exact assign_newBlock hs hm hnew
  | false =>
    obtain ⟨b, hb⟩ := Option.ne_none_iff_exists'.mp (h.resolve_left (by simp [hnew]))
    exact assign_inPlace hs hm hnew hb

/-- An assignment that has none. -/
theorem assign_undefined (hfit : reallocates size s m type = false) (hb : m.store = none) :
    (assign size s i m type).undefined = true := by
  rw [assign, if_neg (Bool.eq_false_iff.mp hfit), hb]

/-! ## All runs -/

theorem step_valid {s' : State T} {action : Action T} (hs : Valid none s)
    (hstep : step size s action = some s') : s'.undefined = true ∨ Valid none s' := by
  rw [step_of_defined size hs.isDefined] at hstep
  cases action with
  | default deleter storeSize =>
    cases hstep
    right
    exact hs.addDelegate ⟨nofun, nofun⟩
  | construct type =>
    cases hstep
    right
    have hempty : (s.allocate (size type) type).blocks s.nextBlock = _ := blocks_allocate _ _
    have hvalid := (hs.allocate (size type) type).place hempty type
    have hfilled : ((s.allocate (size type) type).place s.nextBlock type).blocks s.nextBlock =
        some ⟨size type, type, some s.placed.length⟩ := by
      rw [place_eq hempty]
      exact blocks_setBlock_self _
    exact hvalid.addDelegate
      (.owning (hvalid.lt_of_blocks hfilled) hfilled rfl fun _ => ⟨_, rfl⟩)
  | assign i type =>
    obtain ⟨m, hm, rfl⟩ := Option.map_eq_some_iff.mp hstep
    by_cases h : reallocates size s m type = true ∨ m.store ≠ none
    · exact .inr (assign_assigned hs hm h).valid
    · obtain ⟨hfit, hb⟩ := not_or.mp h
      exact .inl (assign_undefined (Bool.eq_false_iff.mpr hfit) (not_not.mp hb))
  | copyConstruct j =>
    obtain ⟨m, hm, rfl⟩ := Option.map_eq_some_iff.mp hstep
    exact .inr (hs.addDelegate (hs.fits j m hm))
  | moveConstruct j =>
    obtain ⟨m, hm, rfl⟩ := Option.map_eq_some_iff.mp hstep
    right
    have hfits := hs.fits j m hm
    exact (hs.moveFrom hm).addDelegate ⟨hfits.object, hfits.store⟩
  | copyAssign i j =>
    obtain ⟨m, hm, hstep⟩ := Option.bind_eq_some_iff.mp hstep
    obtain ⟨m', hm', rfl⟩ := Option.map_eq_some_iff.mp hstep
    right
    apply hs.replace hm
    intro m'' h
    cases h
    exact hs.fits j m' hm'
  | moveAssign i j =>
    obtain ⟨m, hm, hstep⟩ := Option.bind_eq_some_iff.mp hstep
    obtain ⟨m', hm', rfl⟩ := Option.map_eq_some_iff.mp hstep
    right
    split
    · exact hs
    · rename_i hij
      have hfits := hs.fits j m' hm'
      have hm₁ : (s.setDelegate j (some { m' with store := none })).delegates i = some m :=
        (delegates_setDelegate_ne hij _).trans hm
      apply (hs.moveFrom hm').replace hm₁
      intro m'' h
      cases h
      exact ⟨hfits.object, hfits.store⟩
  | reset i =>
    obtain ⟨m, hm, rfl⟩ := Option.map_eq_some_iff.mp hstep
    right
    apply hs.replace hm
    intro m' h
    cases h
    exact ⟨(hs.fits i m hm).object, nofun⟩
  | resetStub i =>
    obtain ⟨m, hm, rfl⟩ := Option.map_eq_some_iff.mp hstep
    right
    apply hs.setDelegate (hs.lt_of_delegates hm)
    intro m' h
    cases h
    exact ⟨(hs.fits i m hm).object, (hs.fits i m hm).store⟩
  | destroy i =>
    obtain ⟨m, hm, rfl⟩ := Option.map_eq_some_iff.mp hstep
    right
    apply hs.replace hm
    intro m' h
    cases h

/-- **In every state that is reached members and blocks are in step**, unless a null pointer has
been used. -/
theorem run_valid {as : List (Action T)} (hrun : Machine.run (step size) init as = some s)
    (hdefined : s.undefined = false) : Valid none s := by
  have hinv : ∀ {s : State T} {action s'}, (s.undefined = true ∨ Valid none s) →
      step size s action = some s' → s'.undefined = true ∨ Valid none s' := by
    intro s action s' hs hstep
    rcases hs with hundefined | hs
    · rw [step, hundefined] at hstep
      cases hstep
    · exact step_valid hs hstep
  have hs := Machine.run_invariant hinv (.inr valid_init) hrun
  rw [hdefined] at hs
  exact hs.resolve_left Bool.false_ne_true

/-! ## When an assignment works -/

/-- Another delegate calls the same as before exactly if it does not point into a block that only
the delegate owned. -/
theorem Assigned.calls_eq_iff {s' : State T} (hs : Valid none s)
    (h : Assigned size i m type s s') {j : ℕ} (hj : j ≠ i) :
    s'.calls j = s.calls j ↔
      ∀ b, m.store = some b → s.useCount b = 1 → ¬ s.pointsInto j b := by
  rw [State.calls, State.calls, h.others j hj]
  cases hm : s.delegates j with
  | none => simp [State.pointsInto, hm]
  | some mj =>
    cases hstub : mj.stubPtr with
    | none => simp [State.pointsInto, hm, hstub]
    | some stub =>
      cases hobject : mj.objectPtr with
      | none => simp [State.pointsInto, hm, hobject]
      | some c =>
        have hinj : Function.Injective fun id : ℕ => (id, stub) := fun a b hab => (Prod.mk.inj hab).1
        have halive := h.alive c ((hs.fits j mj hm).object c hobject)
        simp only [Option.bind_some, hstub, hobject]
        rw [(Option.map_injective hinj).eq_iff, halive]
        constructor
        · rintro hkept b hb hcount ⟨m', hm', hpoints, -⟩
          obtain rfl := Option.some.inj (hm.symm.trans hm')
          obtain rfl := Option.some.inj (hobject.symm.trans hpoints)
          exact hkept ⟨hb, hcount⟩
        · rintro hothers ⟨hb, hcount⟩
          exact hothers c hb hcount ⟨mj, hm, hobject, by simp [hstub]⟩

/-- **When an assignment works.** In every state that is reached, the assignment of a functor to a
delegate works, and the delegates that were copied from it or to it call what they called, exactly
if the functor gets a block of its own or the delegate owns one, and none of these delegates points
into a block that only this delegate owns. -/
theorem assign_works_iff {as : List (Action T)}
    (hrun : Machine.run (step size) init as = some s) (hdefined : s.undefined = false)
    (hm : s.delegates i = some m) :
    (∃ s', step size s (.assign i type) = some s' ∧
        AssignWorks size i type (CopyRelated size as i) s s') ↔
      (reallocates size s m type = true ∨ m.store ≠ none) ∧
        ∀ b, m.store = some b → s.useCount b = 1 →
          ∀ j, j ≠ i → CopyRelated size as i j → ¬ s.pointsInto j b := by
  have hs := run_valid hrun hdefined
  have hstep : step size s (.assign i type) = some (assign size s i m type) := by
    rw [step_of_defined size hdefined, perform, hm]
    rfl
  constructor
  · rintro ⟨s', hs', hworks⟩
    obtain rfl := Option.some.inj (hstep.symm.trans hs')
    have hblock : reallocates size s m type = true ∨ m.store ≠ none := by
      by_contra h
      obtain ⟨hfit, hb⟩ := not_or.mp h
      have hundefined : (assign size s i m type).undefined = true :=
        assign_undefined (Bool.eq_false_iff.mpr hfit) (not_not.mp hb)
      rw [hworks.isDefined] at hundefined
      cases hundefined
    refine ⟨hblock, ?_⟩
    intro b hb hcount j hj hrelated
    have hcalls := hworks.others j hj hrelated
    exact ((assign_assigned hs hm hblock).calls_eq_iff hs hj).mp hcalls b hb hcount
  · rintro ⟨hblock, hothers⟩
    have hassigned := assign_assigned hs hm hblock
    obtain ⟨b, n, block, hself, hb, hroom, hfunctor⟩ := hassigned.self
    refine ⟨_, hstep, hassigned.valid.isDefined, hassigned.placed, ?_, ?_, ?_⟩
    · exact ⟨b, block, storeOf_eq_some.mpr ⟨_, hself, rfl⟩, hb, hroom, hfunctor⟩
    · have halive : (assign size s i m type).alive b = some s.placed.length := by
        rw [State.alive, hb]
        exact hfunctor
      rw [State.calls, hself]
      simp [owning, halive]
    · intro j hj hrelated
      refine (hassigned.calls_eq_iff hs hj).mpr ?_
      intro c hc hcount
      exact hothers c hc hcount j hj hrelated

/-- A shared block is left to the copy, which goes on calling its functor. -/
theorem assign_works_shared :
    ∃ s m, Machine.run (step exampleSize) init [.construct true, .copyConstruct 0] = some s ∧
      s.delegates 0 = some m ∧ CopyRelated exampleSize [.construct true, .copyConstruct 0] 0 1 ∧
      ∃ s', step exampleSize s (.assign 0 false) = some s' ∧
        AssignWorks exampleSize 0 false
          (CopyRelated exampleSize [.construct true, .copyConstruct 0] 0) s s' := by
  have hrun : Machine.run (step exampleSize) init [.construct true, .copyConstruct 0] = some _ :=
    rfl
  refine ⟨_, _, hrun, rfl, .inr (by decide), ?_⟩
  refine (assign_works_iff hrun rfl rfl).mpr ⟨.inl (by decide), ?_⟩
  intro b hb hcount
  cases hb
  exact absurd hcount (by decide)

/-- **Two functor assignments that do not work.** After `reset` there is no block; and a copy that
was moved from still points into the block of the delegate, whose new functor it then calls. -/
theorem assign_fails :
    (∃ s, Machine.run (step fun _ : Bool => 8) init [.construct false, .reset 0] = some s ∧
      s.undefined = false ∧
      ¬ ∃ s', step (fun _ : Bool => 8) s (.assign 0 false) = some s' ∧
        AssignWorks (fun _ : Bool => 8) 0 false
          (CopyRelated (fun _ : Bool => 8) [.construct false, .reset 0] 0) s s') ∧
    ∃ s, Machine.run (step fun _ : Bool => 8) init
        [.construct false, .copyConstruct 0, .moveConstruct 1, .reset 2] = some s ∧
      s.undefined = false ∧ s.calls 1 = some (0, false) ∧
      ¬ ∃ s', step (fun _ : Bool => 8) s (.assign 0 true) = some s' ∧
        AssignWorks (fun _ : Bool => 8) 0 true (CopyRelated (fun _ : Bool => 8)
          [.construct false, .copyConstruct 0, .moveConstruct 1, .reset 2] 0) s s' := by
  refine ⟨⟨_, rfl, rfl, ?_⟩, _, rfl, rfl, rfl, ?_⟩
  · rintro ⟨s', hs', hworks⟩
    obtain rfl := Option.some.inj hs'
    exact absurd hworks.isDefined (by decide)
  · rintro ⟨s', hs', hworks⟩
    obtain rfl := Option.some.inj hs'
    have hcalls := hworks.others 1 (by decide) (.inr (by decide))
    exact absurd hcalls (by decide)

end Assign

end Delegate

end CppPlayground
