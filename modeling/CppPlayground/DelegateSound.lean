import CppPlayground.Delegate

/-!
# Are functors destroyed as what they are?

A functor assignment reuses the delegate's block if it is large enough and not shared. It
destroys the former functor rightly, by `deleter_`, and then changes `deleter_`; but the
block's own deleter is the one it was allocated with. So when the block is given up, the new
functor is destroyed as if it were of the former type. And a delegate that was reset or
moved from has no block, but its `store_size_` still says that it has.

So it is right to reuse the block only if there is one, with a functor of the same type in it
(`InPlaceOk`). All is well throughout the runs in which that is so, and in no other
(`sound_iff`).
-/

namespace CppPlayground

namespace Delegate

universe u

variable {T : Type u}

/-! ## The property -/

/-- The functor that lives in a block. -/
def State.alive (s : State T) (b : ℕ) : Option ℕ :=
  (s.blocks b).bind Block.functor

/-- **Everything is destroyed as what it is.** -/
structure Sound (s : State T) : Prop where
  isDefined : s.undefined = false
  /-- the deleters of a block and of its owners are those of the functor in it -/
  deleters : ∀ b block, s.blocks b = some block → ∃ id, block.functor = some id ∧
    s.placed[id]? = some block.deleter ∧
    ∀ i m, s.delegates i = some m → m.store = some b → s.placed[id]? = some m.deleter
  /-- each functor is destroyed at most once, by its own destructor, and lives until then -/
  lifetimes : Lifetimes.Ok s.placed s.destroyed s.alive
  /-- when no delegate is left, all functors are destroyed -/
  finished : (∀ i, s.delegates i = none) → ∀ id < s.placed.length,
    id ∈ s.destroyed.map Prod.fst

/-- The type of the functor a delegate owns. -/
def State.holds (s : State T) (i : ℕ) : Option T :=
  ((s.storeOf i).bind s.alive).bind fun id => s.placed[id]?

/-- A functor assignment gets a new block, or puts a functor in the place of one of the same
type. -/
def InPlaceOk (size : T → ℕ) (s : State T) : Action T → Prop
  | .assign i type => (∀ m, s.delegates i = some m → reallocates size s m type = true) ∨
      s.holds i = some type
  | _ => True

/-! ## The invariant, and what is in progress -/

/-- What holds between the parts of an operation: the block `pending` has no functor yet, and
the block `orphan` may have no owner any more. -/
structure Consistent (pending orphan : Option ℕ) (s : State T) : Prop where
  isDefined : s.undefined = false
  names : ∀ i, s.nextDelegate ≤ i → s.delegates i = none
  fresh : ∀ b, s.nextBlock ≤ b → s.blocks b = none
  lifetimes : Lifetimes.Ok s.placed s.destroyed s.alive
  typed : ∀ b block id, s.blocks b = some block → block.functor = some id →
    s.placed[id]? = some block.deleter
  occupied : ∀ b block, s.blocks b = some block → some b ≠ pending →
    ∃ id, block.functor = some id
  owned : ∀ i m b, s.delegates i = some m → m.store = some b →
    ∃ block, s.blocks b = some block ∧ m.deleter = block.deleter
  hasOwner : ∀ b block, s.blocks b = some block → some b ≠ orphan →
    ∃ i, s.storeOf i = some b
  orphaned : ∀ b, orphan = some b → ∃ block, s.blocks b = some block

variable {s : State T} {pending orphan : Option ℕ} {i b : ℕ} {m : Members T} {block : Block T}

theorem consistent_init : Consistent none none (init : State T) where
  isDefined := rfl
  names := fun _ _ => rfl
  fresh := fun _ _ => rfl
  lifetimes := .empty
  typed := nofun
  occupied := nofun
  owned := nofun
  hasOwner := nofun
  orphaned := nofun

theorem storeOf_eq_some : s.storeOf i = some b ↔ ∃ m, s.delegates i = some m ∧ m.store = some b := by
  simp [State.storeOf, Option.bind_eq_some_iff]

theorem storeOf_eq (h : s.delegates i = some m) : s.storeOf i = m.store := by
  rw [State.storeOf, h]
  rfl

theorem storeOf_setDelegate_self (m : Option (Members T)) :
    (s.setDelegate i m).storeOf i = m.bind Members.store := by
  simp [State.storeOf, State.setDelegate]

theorem storeOf_setDelegate_ne {k : ℕ} (h : k ≠ i) (m : Option (Members T)) :
    (s.setDelegate i m).storeOf k = s.storeOf k := by
  simp [State.storeOf, State.setDelegate, h]

theorem alive_setBlock (x : Option (Block T)) :
    (s.setBlock b x).alive = Function.update s.alive b (x.bind Block.functor) := by
  funext c
  by_cases hc : c = b
  · subst hc
    simp [State.alive, State.setBlock]
  · simp [State.alive, State.setBlock, hc]

theorem blocks_setBlock_eq_some {c : ℕ} {x : Option (Block T)} :
    (s.setBlock b x).blocks c = some block ↔
      c = b ∧ x = some block ∨ c ≠ b ∧ s.blocks c = some block := by
  by_cases hc : c = b
  · subst hc
    simp [State.setBlock]
  · simp [State.setBlock, hc]

/-- `use_count()` is zero if there is no owner. -/
theorem useCount_eq_zero_iff (hnames : ∀ i, s.nextDelegate ≤ i → s.delegates i = none) :
    s.useCount b = 0 ↔ ∀ k, s.storeOf k ≠ some b := by
  rw [State.useCount, Finset.card_eq_zero, Finset.filter_eq_empty_iff]
  constructor
  · intro h k hk
    obtain ⟨m, hm, -⟩ := storeOf_eq_some.mp hk
    refine h (Finset.mem_range.mpr ?_) hk
    by_contra hlt
    rw [hnames k (not_lt.mp hlt)] at hm
    cases hm
  · intro h k _
    exact h k

namespace Consistent

/-- The members of a delegate may be set: its deleter is that of its block. -/
def Fits (s : State T) (m : Members T) : Prop :=
  ∀ b, m.store = some b → ∃ block, s.blocks b = some block ∧ m.deleter = block.deleter

theorem lt_of_delegates (hs : Consistent pending orphan s) (h : s.delegates i = some m) :
    i < s.nextDelegate := by
  by_contra hlt
  rw [hs.names i (by omega)] at h
  cases h

/-- A delegate is changed or goes away. It adopts the orphan, and leaves its former block. -/
theorem setDelegate (hs : Consistent pending orphan s) (hi : i < s.nextDelegate)
    {m : Option (Members T)} (hfits : ∀ m', m = some m' → Fits s m')
    (hadopt : ∀ b, orphan = some b → m.bind Members.store = some b) :
    Consistent pending (s.storeOf i) (s.setDelegate i m) where
  isDefined := hs.isDefined
  names := fun k hk => by
    have hne : k ≠ i := by
      have hk' : s.nextDelegate ≤ k := hk
      omega
    simpa [State.setDelegate, hne] using hs.names k hk
  fresh := hs.fresh
  lifetimes := hs.lifetimes
  typed := hs.typed
  occupied := hs.occupied
  owned := fun k m' b hk hb => by
    by_cases hki : k = i
    · subst hki
      exact hfits m' (by simpa [State.setDelegate] using hk) b hb
    · exact hs.owned k m' b (by simpa [State.setDelegate, hki] using hk) hb
  hasOwner := fun b block hb hne => by
    by_cases ho : some b = orphan
    · exact ⟨i, by rw [storeOf_setDelegate_self]; exact hadopt b ho.symm⟩
    · obtain ⟨k, hk⟩ := hs.hasOwner b block hb ho
      have hki : k ≠ i := by
        rintro rfl
        exact hne hk.symm
      exact ⟨k, by rw [storeOf_setDelegate_ne hki]; exact hk⟩
  orphaned := fun b hb => by
    obtain ⟨m', hm', hstore⟩ := storeOf_eq_some.mp hb
    obtain ⟨block, hblock, -⟩ := hs.owned i m' b hm' hstore
    exact ⟨block, hblock⟩

/-- A new delegate adopts the orphan. -/
theorem addDelegate (hs : Consistent pending orphan s) (hfits : Fits s m)
    (hadopt : ∀ b, orphan = some b → m.store = some b) :
    Consistent pending none (s.addDelegate m) where
  isDefined := hs.isDefined
  names := fun k hk => by
    have hk' : s.nextDelegate + 1 ≤ k := hk
    have hne : k ≠ s.nextDelegate := by omega
    simpa [State.addDelegate, State.setDelegate, hne] using hs.names k (by omega)
  fresh := hs.fresh
  lifetimes := hs.lifetimes
  typed := hs.typed
  occupied := hs.occupied
  owned := fun k m' b hk hb => by
    by_cases hki : k = s.nextDelegate
    · subst hki
      have hm : m = m' := by simpa [State.addDelegate, State.setDelegate] using hk
      exact hm ▸ hfits b (hm ▸ hb)
    · exact hs.owned k m' b (by simpa [State.addDelegate, State.setDelegate, hki] using hk) hb
  hasOwner := fun b block hb _ => by
    by_cases ho : some b = orphan
    · refine ⟨s.nextDelegate, ?_⟩
      exact (storeOf_setDelegate_self (some m)).trans (hadopt b ho.symm)
    · obtain ⟨k, hk⟩ := hs.hasOwner b block hb ho
      have hki : k ≠ s.nextDelegate := by
        rintro rfl
        rw [State.storeOf, hs.names _ le_rfl] at hk
        cases hk
      exact ⟨k, (storeOf_setDelegate_ne hki (some m)).trans hk⟩
  orphaned := nofun

/-- A new block has no functor and no owner. -/
theorem allocate (hs : Consistent none none s) (size : ℕ) (type : T) :
    Consistent (some s.nextBlock) (some s.nextBlock) (s.allocate size type) := by
  have hnone : s.alive s.nextBlock = none := by
    rw [State.alive, hs.fresh _ le_rfl]
    rfl
  have halive : (s.allocate size type).alive = s.alive := by
    calc (s.allocate size type).alive
        = Function.update s.alive s.nextBlock none := alive_setBlock _
      _ = s.alive := Function.update_eq_self_iff.mpr hnone.symm
  -- a block is the new one, or an old one
  have hcases : ∀ {c block}, (s.allocate size type).blocks c = some block →
      c = s.nextBlock ∧ block = ⟨size, type, none⟩ ∨ c ≠ s.nextBlock ∧ s.blocks c = some block := by
    intro c block h
    exact (blocks_setBlock_eq_some.mp h).imp_left fun ⟨hc, hb⟩ => ⟨hc, (Option.some.inj hb).symm⟩
  refine ⟨hs.isDefined, hs.names, ?_, ?_, ?_, ?_, ?_, ?_, ?_⟩
  · intro c hc
    have hc' : s.nextBlock + 1 ≤ c := hc
    have hne : c ≠ s.nextBlock := by omega
    simpa [State.allocate, State.setBlock, hne] using hs.fresh c (by omega)
  · rw [halive]
    exact hs.lifetimes
  · intro c block id hc hid
    obtain ⟨-, rfl⟩ | ⟨-, hold⟩ := hcases hc
    · cases hid
    · exact hs.typed c block id hold hid
  · intro c block hc hne
    obtain ⟨rfl, -⟩ | ⟨-, hold⟩ := hcases hc
    · exact absurd rfl hne
    · exact hs.occupied c block hold nofun
  · intro k m b hk hb
    obtain ⟨block, hblock, hdel⟩ := hs.owned k m b hk hb
    have hne : b ≠ s.nextBlock := by
      rintro rfl
      rw [hs.fresh _ le_rfl] at hblock
      cases hblock
    exact ⟨block, blocks_setBlock_eq_some.mpr (.inr ⟨hne, hblock⟩), hdel⟩
  · intro c block hc hne
    obtain ⟨rfl, -⟩ | ⟨-, hold⟩ := hcases hc
    · exact absurd rfl hne
    · exact hs.hasOwner c block hold nofun
  · intro c hc
    obtain rfl := Option.some.inj hc
    exact ⟨_, blocks_setBlock_eq_some.mpr (.inl ⟨rfl, rfl⟩)⟩

/-- The functor in a block changes, and the history with it. -/
theorem setFunctor (hs : Consistent pending orphan s) (hb : s.blocks b = some block)
    {pending' x : Option ℕ} {placed : List T} {destroyed : List (ℕ × T)}
    (hlife : Lifetimes.Ok placed destroyed (Function.update s.alive b x))
    (hplaced : ∀ (id : ℕ) (t : T), s.placed[id]? = some t → placed[id]? = some t)
    (htyped : ∀ id : ℕ, x = some id → placed[id]? = some block.deleter)
    (hfull : some b ≠ pending' → ∃ id, x = some id)
    (hothers : ∀ c, c ≠ b → some c = pending → some c = pending') :
    Consistent pending' orphan
      { s.setBlock b (some { block with functor := x }) with
        placed := placed, destroyed := destroyed } := by
  refine ⟨hs.isDefined, hs.names, ?_, ?_, ?_, ?_, ?_, ?_, ?_⟩
  · intro c hc
    have hne : c ≠ b := by
      rintro rfl
      rw [hs.fresh c hc] at hb
      cases hb
    simpa [State.setBlock, hne] using hs.fresh c hc
  · have halive : (s.setBlock b (some { block with functor := x })).alive =
        Function.update s.alive b x := alive_setBlock _
    rw [← halive] at hlife
    exact hlife
  · intro c block' id hc hid
    obtain ⟨-, hnew⟩ | ⟨-, hold⟩ := blocks_setBlock_eq_some.mp hc
    · obtain rfl := Option.some.inj hnew
      exact htyped id hid
    · exact hplaced id _ (hs.typed c block' id hold hid)
  · intro c block' hc hne
    obtain ⟨rfl, hnew⟩ | ⟨hcb, hold⟩ := blocks_setBlock_eq_some.mp hc
    · obtain rfl := Option.some.inj hnew
      exact hfull hne
    · exact hs.occupied c block' hold fun h => hne (hothers c hcb h)
  · intro k m c hk hc
    obtain ⟨block', hblock', hdel⟩ := hs.owned k m c hk hc
    by_cases hcb : c = b
    · subst hcb
      rw [hb] at hblock'
      obtain rfl := Option.some.inj hblock'
      exact ⟨_, blocks_setBlock_eq_some.mpr (.inl ⟨rfl, rfl⟩), hdel⟩
    · exact ⟨block', blocks_setBlock_eq_some.mpr (.inr ⟨hcb, hblock'⟩), hdel⟩
  · intro c block' hc hne
    obtain ⟨rfl, -⟩ | ⟨-, hold⟩ := blocks_setBlock_eq_some.mp hc
    · exact hs.hasOwner c block hb hne
    · exact hs.hasOwner c block' hold hne
  · intro c hc
    obtain ⟨block', hblock'⟩ := hs.orphaned c hc
    by_cases hcb : c = b
    · exact ⟨_, blocks_setBlock_eq_some.mpr (.inl ⟨hcb, rfl⟩)⟩
    · exact ⟨block', blocks_setBlock_eq_some.mpr (.inr ⟨hcb, hblock'⟩)⟩

/-- A functor is constructed in the block that has none. -/
theorem place (hs : Consistent (some b) orphan s) (hb : s.blocks b = some block)
    (hempty : block.functor = none) :
    Consistent none orphan (s.place b block.deleter) := by
  have hnone : s.alive b = none := by
    rw [State.alive, hb]
    exact hempty
  rw [State.place, hb]
  refine hs.setFunctor hb (hs.lifetimes.place hnone block.deleter) ?_ ?_ ?_ ?_
  · intro id t h
    rw [List.getElem?_append_left (List.getElem?_eq_some_iff.mp h).1]
    exact h
  · intro id hid
    obtain rfl := Option.some.inj hid
    exact List.getElem?_concat_length
  · exact fun _ => ⟨_, rfl⟩
  · exact fun c hne h => absurd (Option.some.inj h) hne

/-- The functor in a block is destroyed as what it is. -/
theorem destruct (hs : Consistent none orphan s) (hb : s.blocks b = some block) :
    Consistent (some b) orphan (s.destruct b block.deleter) ∧
      (s.destruct b block.deleter).blocks b = some { block with functor := none } := by
  obtain ⟨id, hid⟩ := hs.occupied b block hb nofun
  have halive : s.alive b = some id := by
    rw [State.alive, hb]
    exact hid
  rw [State.destruct, hb]
  simp only [hid]
  refine ⟨?_, blocks_setBlock_eq_some.mpr (.inl ⟨rfl, rfl⟩)⟩
  exact hs.setFunctor hb (hs.lifetimes.destroy halive (hs.typed b block id hb hid))
    (fun _ _ h => h) nofun (fun h => absurd rfl h) (fun _ _ h => nomatch h)

/-- The orphan is none: it has an owner. -/
theorem adopted (hs : Consistent pending orphan s)
    (ho : ∀ b, orphan = some b → ∃ i, s.storeOf i = some b) : Consistent pending none s := by
  refine { hs with hasOwner := ?_, orphaned := nofun }
  intro c block hc _
  by_cases hco : orphan = some c
  · exact ho c hco
  · exact hs.hasOwner c block hc fun h => hco h.symm

/-- A delegate is changed, but keeps its block and its deleter. -/
theorem keepStore (hs : Consistent pending none s) (hm : s.delegates i = some m) {m' : Members T}
    (hstore : m'.store = m.store) (hdel : m'.deleter = m.deleter) :
    Consistent pending none (s.setDelegate i (some m')) := by
  have hset := hs.setDelegate (hs.lt_of_delegates hm) (m := some m') ?_ nofun
  · refine hset.adopted fun b hb => ⟨i, ?_⟩
    rw [storeOf_setDelegate_self, ← hb, storeOf_eq hm, ← hstore]
    rfl
  · rintro m'' hm'' b hb
    obtain rfl := Option.some.inj hm''
    obtain ⟨block, hblock, h⟩ := hs.owned i m b hm (hstore ▸ hb)
    exact ⟨block, hblock, hdel.trans h⟩

theorem useCount_eq_zero (hs : Consistent pending orphan s) (h : s.useCount b = 0) (k : ℕ) :
    s.storeOf k ≠ some b :=
  (useCount_eq_zero_iff hs.names).mp h k

theorem exists_owner (h : s.useCount b ≠ 0) : ∃ i, s.storeOf i = some b := by
  obtain ⟨i, hi⟩ := Finset.card_pos.mp (Nat.pos_of_ne_zero h)
  exact ⟨i, (Finset.mem_filter.mp hi).2⟩

/-- The orphan goes away with its functor. -/
theorem free (hs : Consistent pending (some b) s) (hb : s.blocks b = some block) {id : ℕ}
    (hid : block.functor = some id) (hnone : ∀ k, s.storeOf k ≠ some b) :
    Consistent pending none
      { s.setBlock b none with destroyed := s.destroyed ++ [(id, block.deleter)] } := by
  have halive : s.alive b = some id := by
    rw [State.alive, hb]
    exact hid
  -- what remains was there before
  have hold : ∀ {c block'}, (s.setBlock b none).blocks c = some block' →
      c ≠ b ∧ s.blocks c = some block' := by
    intro c block' h
    obtain ⟨-, hnew⟩ | hold := blocks_setBlock_eq_some.mp h
    · cases hnew
    · exact hold
  refine ⟨hs.isDefined, hs.names, ?_, ?_, ?_, ?_, ?_, ?_, nofun⟩
  · intro c hc
    by_cases hcb : c = b
    · simp [State.setBlock, hcb]
    · simpa [State.setBlock, hcb] using hs.fresh c hc
  · have h := hs.lifetimes.destroy halive (hs.typed b block id hb hid)
    have hcells : (s.setBlock b none).alive = Function.update s.alive b none :=
      alive_setBlock none
    rw [← hcells] at h
    exact h
  · exact fun c block' id' hc hid' => hs.typed c block' id' (hold hc).2 hid'
  · exact fun c block' hc hne => hs.occupied c block' (hold hc).2 hne
  · intro k m c hk hc
    obtain ⟨block', hblock', hdel⟩ := hs.owned k m c hk hc
    have hcb : c ≠ b := by
      rintro rfl
      exact hnone k (storeOf_eq_some.mpr ⟨m, hk, hc⟩)
    exact ⟨block', blocks_setBlock_eq_some.mpr (.inr ⟨hcb, hblock'⟩), hdel⟩
  · intro c block' hc _
    exact hs.hasOwner c block' (hold hc).2 fun h => (hold hc).1 (Option.some.inj h)

/-- The orphan is released: it goes away, unless it still has an owner. -/
theorem release (hs : Consistent pending (some b) s) (hb : some b ≠ pending) :
    Consistent pending none (s.release b) := by
  by_cases hcount : s.useCount b = 0
  · obtain ⟨block, hblock⟩ := hs.orphaned b rfl
    obtain ⟨id, hid⟩ := hs.occupied b block hblock hb
    have heq : (s.destruct b block.deleter).setBlock b none =
        { s.setBlock b none with destroyed := s.destroyed ++ [(id, block.deleter)] } := by
      simp [State.destruct, hblock, hid, State.setBlock]
    rw [State.release, if_pos hcount, hblock]
    simp only [heq]
    exact hs.free hblock hid (hs.useCount_eq_zero hcount)
  · obtain ⟨i, hi⟩ := exists_owner hcount
    rw [State.release, if_neg hcount]
    refine hs.adopted fun c hc => ⟨i, ?_⟩
    rw [← hc]
    exact hi

/-- A delegate is changed or goes away, and the block it had is released. -/
theorem replace (hs : Consistent pending orphan s) (hm : s.delegates i = some m)
    {x : Option (Members T)} (hfits : ∀ m', x = some m' → Fits s m')
    (hadopt : ∀ b, orphan = some b → x.bind Members.store = some b)
    (hfull : ∀ b, m.store = some b → some b ≠ pending) :
    Consistent pending none ((s.setDelegate i x).releaseStore m.store) := by
  have hset := hs.setDelegate (hs.lt_of_delegates hm) hfits hadopt
  rw [storeOf_eq hm] at hset
  cases hb : m.store with
  | none =>
    rw [hb] at hset
    exact hset
  | some b =>
    rw [hb] at hset
    exact hset.release (hfull b hb)

end Consistent

/-! ## The operations keep it -/

section Operations

variable {size : T → ℕ}

theorem blocks_releaseStore_ne {c : ℕ} {x : Option ℕ} (h : x ≠ some c) :
    (s.releaseStore x).blocks c = s.blocks c := by
  cases x with
  | none => rfl
  | some b =>
    have hne : c ≠ b := fun hcb => h (congrArg some hcb.symm)
    simp only [State.releaseStore, State.release, State.destruct]
    repeat' split
    all_goals simp [State.setBlock, hne]

@[simp] theorem delegates_destruct (b : ℕ) (type : T) :
    (s.destruct b type).delegates = s.delegates := by
  unfold State.destruct
  repeat' split
  all_goals rfl

@[simp] theorem delegates_place (b : ℕ) (type : T) :
    (s.place b type).delegates = s.delegates := by
  unfold State.place
  split <;> rfl

theorem blocks_allocate (n : ℕ) (type : T) :
    (s.allocate n type).blocks s.nextBlock = some ⟨n, type, none⟩ :=
  blocks_setBlock_eq_some.mpr (.inl ⟨rfl, rfl⟩)

theorem construct_consistent (hs : Consistent none none s) (type : T) :
    Consistent none none (construct size s type) := by
  have hblock := blocks_allocate (s := s) (size type) type
  refine ((hs.allocate (size type) type).place hblock rfl).addDelegate ?_ ?_
  · intro b hb
    obtain rfl := Option.some.inj hb
    refine ⟨⟨size type, type, some s.placed.length⟩, ?_, rfl⟩
    rw [State.place, hblock]
    exact blocks_setBlock_eq_some.mpr (.inl ⟨rfl, rfl⟩)
  · exact fun b hb => hb

/-- A functor assignment with a new block. -/
theorem assign_newBlock_consistent (hs : Consistent none none s) (hm : s.delegates i = some m)
    (type : T) :
    Consistent none none
      ((((s.allocate (size type) type).setDelegate i
        (some (owning s.nextBlock type (size type)))).releaseStore m.store).place
          s.nextBlock type) := by
  have hblock := blocks_allocate (s := s) (size type) type
  -- the former block is not the new one
  have hformer : m.store ≠ some s.nextBlock := by
    intro hstore
    obtain ⟨block, hb, -⟩ := hs.owned i m _ hm hstore
    rw [hs.fresh _ le_rfl] at hb
    cases hb
  have hrel := (hs.allocate (size type) type).replace (m := m) hm
    (x := some (owning s.nextBlock type (size type))) ?_ ?_ ?_
  · have hkept : (((s.allocate (size type) type).setDelegate i
        (some (owning s.nextBlock type (size type)))).releaseStore m.store).blocks s.nextBlock =
          some ⟨size type, type, none⟩ :=
      (blocks_releaseStore_ne hformer).trans hblock
    exact hrel.place hkept rfl
  · intro m' hm' b hb
    obtain rfl := Option.some.inj hm'
    obtain rfl := Option.some.inj hb
    exact ⟨_, hblock, rfl⟩
  · exact fun b hb => hb
  · intro b hb hnew
    exact hformer (hb.trans hnew)

/-- A functor assignment in place, by a functor of the same type. -/
theorem assign_inPlace_consistent (hs : Consistent none none s) (hm : s.delegates i = some m)
    (hstore : m.store = some b) (hb : s.blocks b = some block) :
    Consistent none none (((s.destruct b block.deleter).place b block.deleter).setDelegate i
      (some (owning b block.deleter m.storeSize))) := by
  obtain ⟨hdes, hempty⟩ := hs.destruct hb
  have hplace := hdes.place hempty rfl
  have hi : ((s.destruct b block.deleter).place b block.deleter).delegates i = some m := by
    rw [delegates_place, delegates_destruct]
    exact hm
  -- the deleter of the delegate was that of the block before
  obtain ⟨block', hb', hdel⟩ := hs.owned i m b hm hstore
  obtain rfl := Option.some.inj (hb.symm.trans hb')
  exact hplace.keepStore hi hstore.symm hdel.symm

theorem holds_eq_some {type : T} : s.holds i = some type ↔
    ∃ m b block id, s.delegates i = some m ∧ m.store = some b ∧ s.blocks b = some block ∧
      block.functor = some id ∧ s.placed[id]? = some type := by
  simp only [State.holds, State.storeOf, State.alive, Option.bind_eq_some_iff]
  constructor
  · rintro ⟨id, ⟨b, ⟨m, hm, hb⟩, block, hblock, hid⟩, htype⟩
    exact ⟨m, b, block, id, hm, hb, hblock, hid, htype⟩
  · rintro ⟨m, b, block, id, hm, hb, hblock, hid, htype⟩
    exact ⟨id, ⟨b, ⟨m, hm, hb⟩, block, hblock, hid⟩, htype⟩

theorem assign_consistent (hs : Consistent none none s) (hm : s.delegates i = some m) {type : T}
    (hok : InPlaceOk size s (.assign i type)) : Consistent none none (assign size s i m type) := by
  unfold assign
  split
  case isTrue => exact assign_newBlock_consistent hs hm type
  case isFalse hnew =>
    rcases hok with hre | hholds
    · exact absurd (hre m hm) hnew
    · obtain ⟨m', b, block, id, hm', hstore, hb, hid, htype⟩ := holds_eq_some.mp hholds
      obtain rfl := Option.some.inj (hm.symm.trans hm')
      obtain ⟨block₀, hb₀, hdel⟩ := hs.owned i m b hm hstore
      obtain rfl := Option.some.inj (hb.symm.trans hb₀)
      obtain rfl : block.deleter = type :=
        Option.some.inj ((hs.typed b block id hb hid).symm.trans htype)
      simp only [hstore, hdel]
      exact assign_inPlace_consistent hs hm hstore hb

/-- The members of a delegate fit the state they are in. -/
theorem Consistent.fits (hs : Consistent pending orphan s) (hm : s.delegates i = some m) :
    Consistent.Fits s m :=
  fun b hb => hs.owned i m b hm hb

theorem step_consistent {s' : State T} {action : Action T} (hs : Consistent none none s)
    (hok : InPlaceOk size s action) (hstep : step size s action = some s') :
    Consistent none none s' := by
  rw [step_of_defined size hs.isDefined] at hstep
  cases action with
  | default deleter storeSize =>
    obtain rfl := Option.some.inj hstep
    exact hs.addDelegate nofun nofun
  | construct type =>
    obtain rfl := Option.some.inj hstep
    exact construct_consistent hs type
  | assign i type =>
    obtain ⟨m, hm, rfl⟩ := Option.map_eq_some_iff.mp hstep
    exact assign_consistent hs hm hok
  | copyConstruct j =>
    obtain ⟨m, hm, rfl⟩ := Option.map_eq_some_iff.mp hstep
    exact hs.addDelegate (hs.fits hm) nofun
  | moveConstruct j =>
    obtain ⟨m, hm, rfl⟩ := Option.map_eq_some_iff.mp hstep
    have hset := hs.setDelegate (hs.lt_of_delegates hm)
      (m := some { m with store := none }) (fun m' hm' b hb => by cases hm'; cases hb) nofun
    rw [storeOf_eq hm] at hset
    exact hset.addDelegate (hs.fits hm) fun b hb => hb
  | copyAssign i j =>
    obtain ⟨m, hm, hstep⟩ := Option.bind_eq_some_iff.mp hstep
    obtain ⟨m', hm', rfl⟩ := Option.map_eq_some_iff.mp hstep
    refine hs.replace hm (fun m'' hm'' => ?_) nofun (fun _ _ => nofun)
    obtain rfl := Option.some.inj hm''
    exact hs.fits hm'
  | moveAssign i j =>
    obtain ⟨m, hm, hstep⟩ := Option.bind_eq_some_iff.mp hstep
    obtain ⟨m', hm', rfl⟩ := Option.map_eq_some_iff.mp hstep
    split
    case isTrue => exact hs
    case isFalse hij =>
      -- `i` adopts the block that `j` leaves
      have hset := hs.setDelegate (hs.lt_of_delegates hm')
        (m := some { m' with store := none }) (fun m'' hm'' b hb => by cases hm''; cases hb) nofun
      rw [storeOf_eq hm'] at hset
      refine hset.replace (m := m) ?_ (fun m'' hm'' => ?_) (fun b hb => hb) (fun _ _ => nofun)
      · simpa [State.setDelegate, hij] using hm
      · obtain rfl := Option.some.inj hm''
        exact hs.fits hm'
  | reset i =>
    obtain ⟨m, hm, rfl⟩ := Option.map_eq_some_iff.mp hstep
    exact hs.replace hm (fun m' hm' b hb => by cases hm'; cases hb) nofun (fun _ _ => nofun)
  | resetStub i =>
    obtain ⟨m, hm, rfl⟩ := Option.map_eq_some_iff.mp hstep
    exact hs.keepStore hm rfl rfl
  | destroy i =>
    obtain ⟨m, hm, rfl⟩ := Option.map_eq_some_iff.mp hstep
    exact hs.replace hm nofun nofun (fun _ _ => nofun)

/-! ## Everything is destroyed as what it is -/

theorem Consistent.sound (hs : Consistent none none s) : Sound s where
  isDefined := hs.isDefined
  deleters := fun b block hb => by
    obtain ⟨id, hid⟩ := hs.occupied b block hb nofun
    have htype := hs.typed b block id hb hid
    refine ⟨id, hid, htype, fun i m hm hstore => ?_⟩
    obtain ⟨block', hb', hdel⟩ := hs.owned i m b hm hstore
    obtain rfl := Option.some.inj (hb.symm.trans hb')
    rw [hdel]
    exact htype
  lifetimes := hs.lifetimes
  finished := fun hnone id hid => by
    obtain hdead | ⟨b, hb⟩ := hs.lifetimes.complete id hid
    · exact hdead
    · -- a block that is left has an owner
      obtain ⟨block, hblock, -⟩ := Option.bind_eq_some_iff.mp hb
      obtain ⟨i, hi⟩ := hs.hasOwner b block hblock nofun
      obtain ⟨m, hm, -⟩ := storeOf_eq_some.mp hi
      rw [hnone i] at hm
      cases hm

/-- A functor assignment in place is wrong if the types differ, or if there is no place. -/
theorem assign_misplaced (hs : Sound s) (hm : s.delegates i = some m) {type : T}
    (hnot : ¬ InPlaceOk size s (.assign i type)) : ¬ Sound (assign size s i m type) := by
  intro hs'
  obtain ⟨hnew, hholds⟩ := not_or.mp hnot
  have hnew' : ¬ reallocates size s m type = true := by
    intro h
    refine hnew fun m' hm' => ?_
    obtain rfl := Option.some.inj (hm.symm.trans hm')
    exact h
  rw [assign, if_neg hnew'] at hs'
  cases hstore : m.store with
  | none =>
    rw [hstore] at hs'
    exact Bool.false_ne_true (hs'.isDefined.symm.trans rfl)
  | some b =>
    simp only [hstore] at hs'
    cases hb : s.blocks b with
    | none =>
      have hundef : ((s.destruct b m.deleter).place b type).undefined = true := by
        simp [State.destruct, State.place, hb]
      exact Bool.false_ne_true (hs'.isDefined.symm.trans hundef)
    | some block =>
      obtain ⟨id, hid, hdel, -⟩ := hs.deleters b block hb
      have hplaced : (s.destruct b m.deleter).place b type =
          { s.setBlock b (some { block with functor := some s.placed.length }) with
            placed := s.placed ++ [type], destroyed := s.destroyed ++ [(id, m.deleter)] } := by
        simp [State.destruct, State.place, hb, hid, State.setBlock]
      rw [hplaced] at hs'
      -- the new functor has the deleter of the former one
      obtain ⟨id', hid', hdel', -⟩ :=
        hs'.deleters b _ (blocks_setBlock_eq_some.mpr (.inl ⟨rfl, rfl⟩))
      obtain rfl := Option.some.inj hid'
      have htype : some type = some block.deleter :=
        List.getElem?_concat_length.symm.trans hdel'
      exact hholds (holds_eq_some.mpr ⟨m, b, block, id, hm, hstore, hb, hid, hdel.trans htype.symm⟩)

theorem step_misplaced {s' : State T} {action : Action T} (hs : Sound s)
    (hnot : ¬ InPlaceOk size s action) (hstep : step size s action = some s') : ¬ Sound s' := by
  rw [step_of_defined size hs.isDefined] at hstep
  cases action with
  | assign i type =>
    obtain ⟨m, hm, rfl⟩ := Option.map_eq_some_iff.mp hstep
    exact assign_misplaced hs hm hnot
  | _ => exact absurd trivial hnot

/-- **Functors are destroyed as what they are** exactly in the runs in which functor
assignments put a functor only in the place of one of the same type. -/
theorem sound_iff {as : List (Action T)} (hrun : Machine.run (step size) init as = some s) :
    Machine.Throughout (step size) Sound init as ↔
      Machine.Along (step size) (InPlaceOk size) init as := by
  refine Machine.throughout_iff_along (I := Consistent none none) ?_ ?_ ?_ consistent_init hrun
  · intro t ht
    exact ht.sound
  · intro t action t' ht hok hstep
    exact step_consistent ht hok hstep
  · intro t action t' ht hnot hstep
    exact step_misplaced ht.sound hnot hstep

/-! ## Runs -/

instance decidableInPlaceOk [DecidableEq T] (s : State T) :
    ∀ action, Decidable (InPlaceOk size s action)
  | .assign i type =>
    decidable_of_iff (((s.delegates i).all fun m => reallocates size s m type) = true ∨
      s.holds i = some type)
      (or_congr_left (by simp [Option.all_eq_true]))
  | .default _ _ | .construct _ | .copyConstruct _ | .moveConstruct _ | .copyAssign _ _
  | .moveAssign _ _ | .reset _ | .resetStub _ | .destroy _ => isTrue trivial

/-- The functors of type `true` are the larger ones. -/
def exampleSize (type : Bool) : ℕ :=
  if type then 16 else 8

/-- A block is shared and left to the copy, which gets a new functor in it and is moved
around; in the end everything is gone. -/
theorem sound_sharedBlock :
    ∃ s, Machine.run (step exampleSize) init [.construct false, .copyConstruct 0, .assign 0 true,
        .assign 1 false, .moveConstruct 1, .moveAssign 0 2, .reset 1, .destroy 0, .destroy 1,
        .destroy 2] = some s ∧
      s.placed = [false, true, false] ∧ s.destroyed = [(0, false), (1, true), (2, false)] ∧
      Machine.Throughout (step exampleSize) Sound init [.construct false, .copyConstruct 0,
        .assign 0 true, .assign 1 false, .moveConstruct 1, .moveAssign 0 2, .reset 1, .destroy 0,
        .destroy 1, .destroy 2] :=
  ⟨_, rfl, rfl, rfl, (sound_iff rfl).mpr (by decide +kernel)⟩

/-- **Two functor assignments that go wrong.** A functor of another type of the same size is
destroyed as one of the former type; and after `reset` there is no place for a functor. -/
theorem misplaced_functors :
    (∃ s, Machine.run (step fun _ : Bool => 8) init
        [.construct false, .assign 0 true, .destroy 0] = some s ∧
      s.placed = [false, true] ∧ s.destroyed = [(0, false), (1, false)] ∧ ¬ Sound s) ∧
    ∃ s, Machine.run (step fun _ : Bool => 8) init
        [.construct false, .reset 0, .assign 0 false] = some s ∧
      s.undefined = true ∧ ¬ Sound s := by
  refine ⟨⟨_, rfl, rfl, rfl, fun h => ?_⟩, _, rfl, rfl, fun h => ?_⟩
  · have hown := h.lifetimes.destroyed_own (1, false) (by decide)
    exact absurd hown (by decide)
  · exact Bool.false_ne_true (h.isDefined.symm.trans rfl)

end Operations

end Delegate

end CppPlayground
