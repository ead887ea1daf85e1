import CppPlayground.TripleBufferOwnership

/-!
# Where the values in the triple buffer come from

Every value that sits in a buffer, is held by the consumer or has been returned
is *authentic*: it is the argument of the store whose number it carries, or the
constructor's value with number `0`. So a statement about the numbers of the
returned values is a statement about the values themselves, and an old value can
only appear by way of an old number.
-/

namespace CppPlayground

namespace TripleBuffer

universe u

variable {T : Type u} {val₀ : T}

/-- The local `val` of the consumer call in progress, once it has been read. -/
def LoadPc.hand : LoadPc T → Option (Stamped T)
  | .testAndSet hand | .loadArg hand | .exchange hand _ | .assign hand _ => hand
  | _ => none

/-- `x` carries the value of the store it is numbered with. -/
def Authentic (val₀ : T) (stored : List T) (x : Stamped T) : Prop :=
  (val₀ :: stored)[x.num]? = some x.val

/-- A further store does not change the numbers of the earlier ones. -/
theorem Authentic.append {stored : List T} {x : Stamped T} (h : Authentic val₀ stored x)
    (val : T) : Authentic val₀ (stored ++ [val]) x := by
  have hlt : x.num < (val₀ :: stored).length := (List.getElem?_eq_some_iff.mp h).1
  rw [Authentic, ← List.cons_append, List.getElem?_append_left hlt]
  exact h

/-- The newest number is the one of the last value stored. -/
theorem Authentic.last {stored : List T} {x : Stamped T} {val : T}
    (h : Authentic val₀ stored x) (hnum : x.num = stored.length)
    (hlast : stored.getLast? = some val) : x.val = val := by
  rw [List.getLast?_eq_getElem?] at hlast
  obtain ⟨n, hn⟩ : ∃ n, stored.length = n + 1 := by
    rcases hn : stored.length with _ | n
    · rw [List.length_eq_zero_iff.mp hn] at hlast
      cases hlast
    · exact ⟨n, rfl⟩
  rw [Authentic, hnum, hn, List.getElem?_cons_succ] at h
  rw [hn, Nat.add_sub_cancel] at hlast
  exact Option.some.inj (h.symm.trans hlast)

/-- What the producer carries: before the write, the argument of the newest store;
after it, the newest number stands in the buffer it owns. -/
def ProducerStamp (val₀ : T) (s : State T) : Prop :=
  match s.producer with
  | .loadInprogress val | .write val _ => Authentic val₀ s.stored ⟨val, s.stored.length⟩
  | .loadArg | .exchange _ => (s.bufs s.producerBuf).num = s.stored.length
  | _ => True

/-- All values in sight are authentic. -/
structure Stamps (val₀ : T) (s : State T) : Prop where
  /-- the contents of the buffers -/
  bufs : ∀ b, Authentic val₀ s.stored (s.bufs b)
  /-- the consumer's local -/
  hand : ∀ x, s.consumer.hand = some x → Authentic val₀ s.stored x
  /-- the values returned so far -/
  loads : ∀ x ∈ s.loads, Authentic val₀ s.stored x
  /-- the producer's local, or the buffer it has written -/
  producer : ProducerStamp val₀ s

theorem stamps_init (val₀ : T) : Stamps val₀ (init val₀) where
  bufs _ := rfl
  hand _ h := by cases h
  loads _ h := by cases h
  producer := trivial

/-- Returning an authentic value keeps everything authentic. -/
theorem Stamps.ret {s : State T} (h : Stamps val₀ s) {x : Stamped T}
    (hx : Authentic val₀ s.stored x) : Stamps val₀ (ret s x) where
  bufs := h.bufs
  hand _ hx := by cases hx
  loads y hy := by
    rcases List.mem_append.mp hy with hy | hy
    · exact h.loads y hy
    · rw [List.mem_singleton.mp hy]
      exact hx
  producer := h.producer

/-- A consumer operation that returns nothing and reads at most from a buffer. -/
theorem Stamps.consumer {s s' : State T} (h : Stamps val₀ s) (hb : s'.bufs = s.bufs)
    (hs : s'.stored = s.stored) (hl : s'.loads = s.loads)
    (hp : s'.producer = s.producer) (hi : s'.inprogress = s.inprogress)
    (hh : ∀ x, s'.consumer.hand = some x → s.consumer.hand = some x ∨ ∃ b, x = s.bufs b) :
    Stamps val₀ s' where
  bufs b := by
    rw [hb, hs]
    exact h.bufs b
  hand x hx := by
    rw [hs]
    rcases hh x hx with hx | ⟨b, rfl⟩
    · exact h.hand x hx
    · exact h.bufs b
  loads x hx := by
    rw [hs]
    exact h.loads x (hl ▸ hx)
  producer := by
    have hprod := h.producer
    unfold ProducerStamp at hprod ⊢
    rw [show s'.producerBuf = s.producerBuf by unfold State.producerBuf; rw [hp, hi], hp, hb, hs]
    exact hprod

theorem stamps_step {s s' : State T} {a : Action T} (ho : Owned s) (h : Stamps val₀ s)
    (hstep : step s a = some s') : Stamps val₀ s' := by
  cases step_trans hstep with
  | @store val hp =>
    refine ⟨fun b => (h.bufs b).append val, fun x hx => (h.hand x hx).append val,
      fun x hx => (h.loads x hx).append val, ?_⟩
    -- the new store's number is the length of the extended history
    simp [ProducerStamp, Authentic]
  | @loadInprogress val hp =>
    have hprod := h.producer
    rw [ProducerStamp, hp] at hprod
    exact ⟨h.bufs, h.hand, h.loads, hprod⟩
  | @write val p hp =>
    have hprod := h.producer
    rw [ProducerStamp, hp] at hprod
    refine ⟨fun b => ?_, h.hand, h.loads, ?_⟩
    · by_cases hb : b = p
      · subst hb
        simpa using hprod
      · simpa [Function.update_of_ne hb] using h.bufs b
    · -- the buffer written is the one the producer owns
      have hbuf := ho.write_eq hp
      rw [State.producerBuf, hp] at hbuf
      simp [ProducerStamp, State.producerBuf, hbuf]
  | storeArg hp =>
    have hprod := h.producer
    rw [ProducerStamp, hp, State.producerBuf, hp] at hprod
    exact ⟨h.bufs, h.hand, h.loads, hprod⟩
  | publish hp => exact ⟨h.bufs, h.hand, h.loads, trivial⟩
  | assignInprogress hp => exact ⟨h.bufs, h.hand, h.loads, trivial⟩
  | clear hp => exact ⟨h.bufs, h.hand, h.loads, trivial⟩
  | @readWait p hc => exact h.ret (h.bufs p)
  | @keep val hc hst => exact h.ret (h.hand val (by rw [hc]; rfl))
  | @assignInstant val res hc =>
    have hval := h.hand val (by rw [hc]; rfl)
    have h' : Stamps val₀ { s with present := res } :=
      h.consumer rfl rfl rfl rfl rfl fun x hx => .inl hx
    exact h'.ret hval
  | spin => exact h
  | @readInstant p hc =>
    refine h.consumer rfl rfl rfl rfl rfl fun x hx => .inr ⟨p, ?_⟩
    exact (Option.some.inj hx).symm
  | _ =>
    -- the remaining consumer operations leave `val` as it is
    refine h.consumer rfl rfl rfl rfl rfl fun x hx => .inl ?_
    simp_all [LoadPc.hand]

/-- **Authenticity**, along every run. -/
theorem stamps_run {as : List (Action T)} {s : State T}
    (hrun : Machine.run step (init val₀) as = some s) : Owned s ∧ Stamps val₀ s :=
  Machine.run_invariant (I := fun s => Owned s ∧ Stamps val₀ s)
    (fun h hstep => ⟨owned_step h.1 hstep, stamps_step h.1 h.2 hstep⟩)
    ⟨owned_init val₀, stamps_init val₀⟩ hrun

end TripleBuffer

end CppPlayground
