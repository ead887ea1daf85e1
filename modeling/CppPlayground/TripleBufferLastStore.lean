import CppPlayground.TripleBufferFresh

/-!
# Is the last store ever lost?

Once the producer has stopped, only the consumer moves. If the last store was
published truthfully, the first complete load from then on fetches it and sets the
flag, and after that nothing changes any more: every later load returns it
(`lastStore_kept`). Only the last store matters here; earlier ones may have
overlapped with a swap.

If the last store did overlap with a swap, the flag is left clear over an older
value. One load returns the new value and swaps the old one back in; from then on
the flag is set, and the reader is stuck on the old value for ever
(`lastStore_lost`).
-/

namespace CppPlayground

namespace TripleBuffer

universe u

variable {T : Type u} {val₀ : T}

/-! ## The property -/

/-- The number of consumer calls begun so far, the one in progress included. -/
def State.begun (s : State T) : ℕ :=
  match s.consumer with
  | .idle => s.loads.length
  | _ => s.loads.length + 1

/-- The actions of the consumer thread. -/
def Action.isConsumer : Action T → Bool
  | .waitLoad | .instantLoad | .consumer => true
  | .store _ | .producer => false

/-- `val` is not lost in `s`, where no store is in flight or to come. The calls
numbered from `s.begun + 2` on are those that start after two further complete
calls. -/
structure LastStoreKept (s : State T) (val : T) : Prop where
  /-- whatever such a call returns is `val` -/
  returned : ∀ bs s', (∀ a ∈ bs, a.isConsumer = true) → Machine.run step s bs = some s' →
    ∀ x ∈ s'.loads.drop (s.begun + 2), x.val = val
  /-- and an `instant_load` that starts then does return, with `val` -/
  returns : ∀ bs s', (∀ a ∈ bs, a.isConsumer = true) → Machine.run step s bs = some s' →
    s'.consumer = .idle → s.begun + 2 ≤ s'.loads.length →
    ∃ n s'' x, Machine.run step s' (.instantLoad :: List.replicate n .consumer) = some s'' ∧
      s''.consumer = .idle ∧ s''.loads = s'.loads ++ [x] ∧ x.val = val

/-! ## The consumer on its own -/

/-- The consumer call in progress has exchanged. -/
def State.swapped (s : State T) : Bool :=
  match s.consumer with
  | .assign _ _ | .load .wait | .read .wait _ => true
  | _ => false

/-- The invariant of the consumer running alone after a truthful publication. The
calls numbered from `b` on have begun since then: the first of them leaves the
flag set and the newest value in the consumer's buffer, and every later one
returns that value. -/
structure Late (b : ℕ) (s : State T) : Prop where
  /-- no store is in flight -/
  idle : s.producer = .idle
  /-- the flag is truthful -/
  fresh : Handoff.Fresh s.handoff
  /-- a new call that has exchanged has set the flag -/
  swapped : b ≤ s.loads.length → s.swapped = true → s.stale = true
  /-- after the first new call, the flag is set for good -/
  settled : b < s.loads.length → s.stale = true ∧ s.swapping = false
  /-- and what a call has in hand is the newest value -/
  hand : b < s.loads.length → ∀ x, s.consumer.hand = some x → x.num = s.stored.length
  /-- and so is what it returns -/
  loads : ∀ x ∈ s.loads.drop (b + 1), x.num = s.stored.length

theorem handoff_idle {s : State T} (hp : s.producer = .idle) :
    s.publishing = false ∧ s.published = s.stored.length := by
  simp [State.publishing, State.published, hp]

/-- After the first new call the consumer's buffer holds the newest value. -/
theorem Late.seen {b : ℕ} {s : State T} (h : Late b s) (hb : b < s.loads.length) :
    s.seen = s.stored.length := by
  obtain ⟨hst, hsw⟩ := h.settled hb
  obtain ⟨hpub, hnew⟩ := handoff_idle h.idle
  exact (h.fresh.seen hpub hst hsw).trans hnew

/-- Where the invariant starts: nothing is said yet of the call in progress. -/
theorem late_start {s : State T} (hp : s.producer = .idle) (hf : Handoff.Fresh s.handoff) :
    Late s.begun s := by
  have hlen : s.loads.length ≤ s.begun := by unfold State.begun; split <;> omega
  refine ⟨hp, hf, fun hb hsw => ?_, fun hb => absurd hb (by omega),
    fun hb => absurd hb (by omega), ?_⟩
  · -- if the call in progress counts as new there is none
    unfold State.begun at hb
    split at hb
    case h_1 hc => simp [State.swapped, hc] at hsw
    case h_2 => omega
  · rw [List.drop_eq_nil_of_le (by omega)]
    nofun

/-- A call returns `x`: the flag must be set, and `x` newest if the call is not the
first new one. -/
theorem Late.ret {b : ℕ} {s : State T} (h : Late b s) (x : Stamped T)
    (hf : Handoff.Fresh (ret s x).handoff) (hst : b ≤ s.loads.length → s.stale = true)
    (hx : b < s.loads.length → x.num = s.stored.length) : Late b (ret s x) where
  idle := h.idle
  fresh := hf
  swapped _ := nofun
  settled hb := by
    simp only [TripleBuffer.ret, List.length_append, List.length_singleton] at hb
    exact ⟨hst (by omega), rfl⟩
  hand _ := nofun
  loads y hy := by
    simp only [TripleBuffer.ret, List.drop_append, List.mem_append] at hy
    rcases hy with hy | hy
    · exact h.loads y hy
    · -- `x` is past position `b` only if the call is not the first new one
      have hb : b < s.loads.length := by
        by_contra hb
        rw [List.drop_eq_nil_of_le (by simp; omega)] at hy
        cases hy
      rw [show y = x from List.mem_singleton.mp (List.mem_of_mem_drop hy)]
      exact hx hb

/-- A consumer operation that returns nothing. -/
theorem Late.keep {b : ℕ} {s s' : State T} (h : Late b s)
    (hf : Handoff.Fresh s'.handoff) (hp : s'.producer = s.producer)
    (hl : s'.loads = s.loads) (hs : s'.stored = s.stored)
    (hsw : b ≤ s.loads.length → s'.swapped = true → s'.stale = true)
    (hset : b < s.loads.length → s'.stale = true ∧ s'.swapping = false)
    (hh : b < s.loads.length → ∀ x, s'.consumer.hand = some x →
      s.consumer.hand = some x ∨ x.num = s.seen) : Late b s' where
  idle := hp.trans h.idle
  fresh := hf
  swapped hb := hsw (hl ▸ hb)
  settled hb := hset (hl ▸ hb)
  hand hb x hx := by
    rw [hl] at hb
    rw [hs]
    rcases hh hb x hx with hx | hx
    · exact h.hand hb x hx
    · exact hx.trans (h.seen hb)
  loads := by
    rw [hl, hs]
    exact h.loads

/-- With no store in flight no step can make the sections overlap. -/
theorem apart_of_idle {s : State T} {a : Action T} (hp : s.producer = .idle) : Apart s a := by
  cases a <;> simp only [Apart, State.overlaps, hp]
  split
  · rw [(handoff_idle hp).1, Bool.and_false]
  · rfl

/-- **The step lemma**: whatever the consumer does next, the invariant stays. -/
theorem late_step {b : ℕ} {s s' : State T} {a : Action T} (hs : Sound val₀ s)
    (h : Late b s) (ha : a.isConsumer = true) (hstep : step s a = some s') : Late b s' := by
  have hf := fresh_step hs h.fresh (apart_of_idle h.idle) hstep
  have hset := h.settled
  cases step_trans hstep with
  | store | loadInprogress | write | storeArg | publish | assignInprogress | clear => cases ha
  | waitLoad hc =>
    exact h.keep hf rfl rfl rfl (fun _ hsw => by cases hsw)
      (fun hb => ⟨(hset hb).1, rfl⟩) fun _ _ hx => by cases hx
  | instantLoad hc =>
    exact h.keep hf rfl rfl rfl (fun _ hsw => by cases hsw)
      (fun hb => ⟨(hset hb).1, rfl⟩) fun _ _ hx => by cases hx
  | @loadPresent call hc =>
    refine h.keep hf rfl rfl rfl (fun hb hsw => h.swapped hb ?_)
      (fun hb => ⟨(hset hb).1, rfl⟩) fun _ _ hx => by cases hx
    cases call
    · rw [State.swapped, hc]
    · cases hsw
  | @readWait p hc =>
    refine h.ret _ hf (fun hb => h.swapped hb (by rw [State.swapped, hc])) fun hb => ?_
    rw [hs.owned.read_eq hc]
    exact h.seen hb
  | @readInstant p hc =>
    refine h.keep hf rfl rfl rfl (fun _ hsw => by cases hsw) (fun hb => ⟨(hset hb).1, rfl⟩)
      fun _ x hx => .inr ?_
    rw [← Option.some.inj hx, hs.owned.read_eq hc]
    rfl
  | spin => exact h
  | @keep val hc hst =>
    exact h.ret _ hf (fun _ => hst) fun hb => h.hand hb val (by rw [hc]; rfl)
  | @take hand hc hst =>
    -- only a call that is not new, or the first new one, finds the flag clear
    have hb : ¬ b < s.loads.length := fun hb => by
      rw [(hset hb).1] at hst
      cases hst
    exact h.keep hf rfl rfl rfl (fun _ _ => rfl) (fun hb' => absurd hb' hb)
      fun hb' => absurd hb' hb
  | @swapArg hand hc =>
    have hb : ¬ b < s.loads.length := fun hb => by
      have hsw := (hset hb).2
      rw [State.swapping, hc] at hsw
      cases hsw
    exact h.keep hf rfl rfl rfl (fun _ hsw => by cases hsw) (fun hb' => absurd hb' hb)
      fun hb' => absurd hb' hb
  | @swap hand arg hc =>
    have hsw : s.swapping = true := by rw [State.swapping, hc]
    have hb : ¬ b < s.loads.length := fun hb => by
      rw [(hset hb).2] at hsw
      cases hsw
    exact h.keep hf rfl rfl rfl (fun _ _ => h.fresh.taken hsw) (fun hb' => absurd hb' hb)
      fun hb' => absurd hb' hb
  | @assignWait res hc =>
    exact h.keep hf rfl rfl rfl (fun hb _ => h.swapped hb (by rw [State.swapped, hc]))
      (fun hb => ⟨(hset hb).1, rfl⟩) fun _ _ hx => by cases hx
  | @assignInstant val res hc =>
    have hst : b ≤ s.loads.length → s.stale = true := fun hb =>
      h.swapped hb (by rw [State.swapped, hc])
    have hval : b < s.loads.length → val.num = s.stored.length := fun hb =>
      h.hand hb val (by rw [hc]; rfl)
    have h' : Late b { s with present := res, consumer := .idle } :=
      h.keep hf rfl rfl rfl (fun _ hsw => by cases hsw)
        (fun hb => ⟨(hset hb).1, rfl⟩) fun _ _ hx => by cases hx
    exact h'.ret val hf hst hval

/-- **The run lemma.** -/
theorem late_run {b : ℕ} {s s' : State T} {bs : List (Action T)} (hs : Sound val₀ s)
    (h : Late b s) (hbs : ∀ a ∈ bs, a.isConsumer = true)
    (hrun : Machine.run step s bs = some s') : Sound val₀ s' ∧ Late b s' := by
  refine Machine.run_invariant_mem (I := fun t => Sound val₀ t ∧ Late b t) ?_ ⟨hs, h⟩ hbs hrun
  rintro t a t' ⟨ht, hl⟩ ha hstep
  exact ⟨sound_step ht hstep, late_step ht hl ha hstep⟩

/-- No consumer step touches the history of the stores. -/
theorem stored_run {s s' : State T} {bs : List (Action T)}
    (hbs : ∀ a ∈ bs, a.isConsumer = true) (hrun : Machine.run step s bs = some s') :
    s'.stored = s.stored := by
  refine Machine.run_invariant_mem (I := fun t => t.stored = s.stored) ?_ rfl hbs hrun
  intro t a t' ht ha hstep
  cases step_trans hstep <;> first | exact ht | cases ha

/-! ## From the last publication to the end of the run -/

/-- A truthful publication is kept by the consumer on its own. -/
theorem lastStoreKept_of_fresh {s : State T} {val : T} (hs : Sound val₀ s)
    (hp : s.producer = .idle) (hf : Handoff.Fresh s.handoff)
    (hlast : s.stored.getLast? = some val) : LastStoreKept s val := by
  refine ⟨fun bs s' hbs hrun x hx => ?_, fun bs s' hbs hrun hc hlen => ?_⟩
  · obtain ⟨hs', h'⟩ := late_run hs (late_start hp hf) hbs hrun
    have hst := stored_run hbs hrun
    have hx' : x ∈ s'.loads.drop (s.begun + 1) := by
      rw [show s.begun + 2 = s.begun + 1 + 1 from rfl, ← List.drop_drop] at hx
      exact List.mem_of_mem_drop hx
    exact (hs'.stamps.loads x (List.mem_of_mem_drop hx)).last (h'.loads x hx') (hst ▸ hlast)
  · -- the flag is set, so the load returns what is in its buffer
    obtain ⟨hs', h'⟩ := late_run hs (late_start hp hf) hbs hrun
    have hst := stored_run hbs hrun
    have hb : s.begun < s'.loads.length := by omega
    obtain ⟨hstale, -⟩ := h'.settled hb
    have hnum : (s'.bufs s'.present).num = s'.stored.length := by
      have hseen := h'.seen hb
      rwa [State.seen, State.consumerBuf, hc] at hseen
    refine ⟨3, ret s' (s'.bufs s'.present), s'.bufs s'.present, ?_, rfl, rfl, ?_⟩
    · simp [Machine.run, step, hc, loadStep, hstale, ret, List.replicate]
    · exact (hs'.stamps.bufs s'.present).last hnum (hst ▸ hlast)

/-- The flag is truthful about store `n` from its exchange on, as long as the steps
during that store keep the sections apart. -/
theorem fresh_step_of_published {n : ℕ} {s s' : State T} {a : Action T} (hn : n ≠ 0)
    (hs : Sound val₀ s)
    (hf : s.stored.length = n → s.published = n → Handoff.Fresh s.handoff)
    (ha : s.stored.length = n → Apart s a) (hstep : step s a = some s')
    (hlen : s'.stored.length = n) (hpub : s'.published = n) : Handoff.Fresh s'.handoff := by
  have ht := step_trans hstep
  cases ht with
  | store hp =>
    -- a store that has just begun is not published
    dsimp only [State.published] at hlen hpub
    omega
  | @publish arg hp =>
    have hsw : s.swapping = false := by
      simpa [Apart, State.overlaps, hp] using ha hlen
    rcases handoff_step hs.owned hs.stamps (step_trans hstep) with ⟨hev, -⟩ | ⟨e, hev, he⟩
    · simp [event, hp] at hev
    · simp only [event, hp, Option.some.injEq] at hev
      subst hev
      exact Handoff.fresh_publish hsw he
  | _ =>
    refine fresh_step hs (hf hlen ?_) (ha hlen) hstep
    simp_all [State.published, ret]

/-- **The last store is kept** in every run in which no step makes *its*
publication overlap with a swap: once it has completed and no store is in flight,
every load that starts after two further complete loads returns its value. -/
theorem lastStore_kept {as : List (Action T)} {s : State T} {val : T}
    (hrun : Machine.run step (init val₀) as = some s)
    (hok : Machine.Along step (fun t a => t.stored.length = s.stored.length → Apart t a)
      (init val₀) as)
    (hp : s.producer = .idle) (hlast : s.stored.getLast? = some val) :
    LastStoreKept s val := by
  have hpos : s.stored.length ≠ 0 := fun h0 => by
    rw [List.length_eq_zero_iff.mp h0] at hlast
    cases hlast
  -- the flag is truthful from the exchange of the last store on
  have hinv : Sound val₀ s ∧ (s.stored.length = s.stored.length →
      s.published = s.stored.length → Handoff.Fresh s.handoff) := by
    refine Machine.run_invariant_along (I := fun t => Sound val₀ t ∧
      (t.stored.length = s.stored.length → t.published = s.stored.length →
        Handoff.Fresh t.handoff)) ?_ ⟨sound_init val₀, fun h0 => absurd h0.symm hpos⟩ hok hrun
    rintro t a t' ⟨ht, hf⟩ ha hstep
    exact ⟨sound_step ht hstep, fresh_step_of_published hpos ht hf ha hstep⟩
  exact lastStoreKept_of_fresh hinv.1 hp (hinv.2 rfl (handoff_idle hp).2) hlast

/-- A load begins after the store of `7` has, exchanges just before it does and returns
before it clears the flag. -/
def loadInsideStore : List (Action ℕ) :=
  [.store 7, .instantLoad, .producer, .consumer, .producer, .consumer, .producer,
    .consumer, .consumer, .consumer, .producer, .consumer, .producer, .producer]

/-- The load swaps the constructor's value for the constructor's value; the value of the
store around it is still kept. -/
theorem lastStore_kept_store :
    ∃ s, Machine.run step (init 0) loadInsideStore = some s ∧
      s.producer = .idle ∧ s.loads = [⟨0, 0⟩] ∧ s.stored.getLast? = some 7 ∧
      LastStoreKept s 7 := by
  refine ⟨_, rfl, rfl, rfl, rfl, ?_⟩
  exact lastStore_kept (show Machine.run step (init 0) loadInsideStore = some _ from rfl)
    (by decide) rfl rfl

/-- **The last store is lost** when its publication overlaps with a swap: after
`overlap` the store of `7` has completed, two further loads complete, and the load
that starts after them returns the constructor's value. -/
theorem lastStore_lost :
    ∃ s s', Machine.run step (init 0) overlap = some s ∧
      s.producer = .idle ∧ s.stored.getLast? = some 7 ∧
      Machine.run step s (twoLoads ++ [.instantLoad, .consumer, .consumer, .consumer]) = some s' ∧
      s.begun + 3 = s'.begun ∧ s'.loads.drop (s.begun + 2) = [⟨0, 0⟩] ∧
      ¬ LastStoreKept s 7 := by
  refine ⟨_, _, rfl, rfl, rfl, rfl, rfl, rfl, fun h => ?_⟩
  have h0 := h.returned (twoLoads ++ [.instantLoad, .consumer, .consumer, .consumer]) _
    (by decide) rfl ⟨0, 0⟩ (by decide)
  cases h0

end TripleBuffer

end CppPlayground
