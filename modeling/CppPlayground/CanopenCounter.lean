import CppPlayground.Machine
import Mathlib.Data.List.Chain
import Mathlib.Data.List.InsertIdx
import Mathlib.Data.List.Pairwise
import Mathlib.Tactic.Common

/-!
# A counter that two CANopen nodes pass to each other

The driver of the master (`lely_examples/master.cpp`) adds one to each value that it receives from
object 4001 of the slave and has the sum sent to object 4000 of the slave; the slave (`slave.cpp`)
copies what it receives there to object 4001. Both objects are sent at each SYNC, whether they
have changed or not, so that the same value is usually sent more than once. The process data
objects of a direction arrive in order, late, or not at all.

The nodes are modelled for any type of values. With natural numbers the values on their way from
the master over the slave back to the master never get smaller, and there are at most two of them
(`Inv`). So neither node sees a number left out or one that it has passed, however many frames are
repeated or lost (`run_printed`). The `uint32_t` of the source are the image of these numbers
(`run_map`), and the counter goes on from its largest value to zero.
-/

namespace CppPlayground

namespace CanopenCounter

open Machine

/-! ## The nodes -/

/-- The objects of the two nodes that are mapped to each other, and the frames on the bus, the
oldest first. -/
structure State (V : Type) where
  /-- `tpdo_mapped[0x4000][0]` of the master -/
  tpdo4000 : V
  /-- `rpdo_mapped[0x4001][0]` of the master -/
  rpdo4001 : V
  /-- object 4000 of the slave -/
  obj4000 : V
  /-- object 4001 of the slave -/
  obj4001 : V
  toSlave : List V
  toMaster : List V
  /-- history: the values that the slave has printed -/
  slavePrinted : List V
  /-- history: the values that the master has printed -/
  masterPrinted : List V
  deriving DecidableEq, Repr

inductive Action
  /-- the master sends its object at a SYNC -/
  | masterSends
  /-- the slave does -/
  | slaveSends
  /-- the next frame arrives at the slave -/
  | slaveReceives
  /-- the next frame arrives at the master -/
  | masterReceives
  /-- a frame to the slave is lost -/
  | loseToSlave (i : ℕ)
  /-- a frame to the master is lost -/
  | loseToMaster (i : ℕ)
  deriving DecidableEq, Repr

section Nodes

variable {V : Type} (increment : V → V)

/-- `OnWrite` of the slave. -/
def onWrite (s : State V) (idx subidx : ℕ) : State V :=
  if idx = 0x4000 && subidx = 0 then
    { s with obj4001 := s.obj4000, slavePrinted := s.slavePrinted ++ [s.obj4000] }
  else s

/-- `OnRpdoWrite` of the driver. -/
def onRpdoWrite (s : State V) (idx subidx : ℕ) : State V :=
  if idx = 0x4001 && subidx = 0 then
    { s with
      tpdo4000 := increment s.rpdo4001
      masterPrinted := s.masterPrinted ++ [s.rpdo4001] }
  else s

/-- One step of the bus; `none` if there is no such frame. -/
def step (s : State V) : Action → Option (State V)
  | .masterSends => some { s with toSlave := s.toSlave ++ [s.tpdo4000] }
  | .slaveSends => some { s with toMaster := s.toMaster ++ [s.obj4001] }
  | .slaveReceives =>
    match s.toSlave with
    | [] => none
    | v :: rest => some (onWrite { s with toSlave := rest, obj4000 := v } 0x4000 0)
  | .masterReceives =>
    match s.toMaster with
    | [] => none
    | v :: rest => some (onRpdoWrite increment { s with toMaster := rest, rpdo4001 := v } 0x4001 0)
  | .loseToSlave i => some { s with toSlave := s.toSlave.eraseIdx i }
  | .loseToMaster i => some { s with toMaster := s.toMaster.eraseIdx i }

/-- Behind `OnConfig`, which has reset the objects of the slave. -/
def init (zero : V) : State V := ⟨zero, zero, zero, zero, [], [], [], []⟩

/-- The same with other values. -/
def State.map {W : Type} (f : V → W) (s : State V) : State W :=
  ⟨f s.tpdo4000, f s.rpdo4001, f s.obj4000, f s.obj4001, s.toSlave.map f, s.toMaster.map f,
    s.slavePrinted.map f, s.masterPrinted.map f⟩

end Nodes

/-! ## Natural numbers -/

/-- The values on the way from the master over the slave to the master, in the order in which they
get back. -/
def State.line (s : State ℕ) : List ℕ :=
  s.toMaster ++ s.obj4001 :: (s.toSlave ++ [s.tpdo4000])

/-- The second value is the first one or the next. -/
def Counts (a b : ℕ) : Prop := b = a ∨ b = a + 1

structure Inv (s : State ℕ) : Prop where
  /-- nothing on the way gets smaller, -/
  sorted : s.line.Pairwise (· ≤ ·)
  /-- or is further behind than by one -/
  near : ∀ v ∈ s.line, s.tpdo4000 ≤ v + 1
  slaveLast : s.slavePrinted.getLastD 0 = s.obj4001
  slaveCounts : (0 :: s.slavePrinted).IsChain Counts
  masterLast : s.masterPrinted.getLastD 0 = s.tpdo4000 - 1
  masterCounts : (0 :: s.masterPrinted).IsChain Counts

theorem inv_init : Inv (init 0) :=
  ⟨by simp [init, State.line], by simp [init, State.line], rfl, by simp [init], rfl, by simp [init]⟩

variable {s s' : State ℕ} {v : ℕ} {l : List ℕ}

theorem isChain_concat {a : ℕ} (h : (a :: l).IsChain Counts) (hv : Counts (l.getLastD a) v) :
    (a :: (l ++ [v])).IsChain Counts := by
  induction l generalizing a with
  | nil => exact List.isChain_cons_cons.mpr ⟨hv, List.isChain_singleton v⟩
  | cons b l ih =>
    obtain ⟨hab, hrest⟩ := List.isChain_cons_cons.mp h
    rw [List.getLastD_cons] at hv
    exact List.isChain_cons_cons.mpr ⟨hab, ih hrest hv⟩

theorem Inv.le_tpdo4000 (h : Inv s) (hv : v ∈ s.line) : v ≤ s.tpdo4000 := by
  have hsorted := h.sorted
  rw [State.line, ← List.cons_append, ← List.append_assoc] at hsorted
  rw [State.line, ← List.cons_append, ← List.append_assoc, List.mem_append] at hv
  rcases hv with hv | hv
  · exact (List.pairwise_append.mp hsorted).2.2 v hv _ (List.mem_singleton_self _)
  · exact (List.mem_singleton.mp hv).le

/-- Nothing but the frames on the bus changes. -/
theorem Inv.frames (h : Inv s) (hsorted : s'.line.Pairwise (· ≤ ·)) (hline : s'.line ⊆ s.line)
    (htpdo : s'.tpdo4000 = s.tpdo4000) (hobj : s'.obj4001 = s.obj4001)
    (hslave : s'.slavePrinted = s.slavePrinted) (hmaster : s'.masterPrinted = s.masterPrinted) :
    Inv s' where
  sorted := hsorted
  near v hv := htpdo ▸ h.near v (hline hv)
  slaveLast := by rw [hslave, hobj, h.slaveLast]
  slaveCounts := hslave ▸ h.slaveCounts
  masterLast := by rw [hmaster, htpdo, h.masterLast]
  masterCounts := hmaster ▸ h.masterCounts

/-- A value that is sent is on the way once more. -/
theorem pairwise_repeat {a b : List ℕ} (h : (a ++ v :: b).Pairwise (· ≤ ·)) :
    (a ++ v :: v :: b).Pairwise (· ≤ ·) := by
  obtain ⟨ha, hb, hab⟩ := List.pairwise_append.mp h
  have hv := List.pairwise_cons.mp hb
  refine List.pairwise_append.mpr ⟨ha, List.pairwise_cons.mpr ⟨?_, hb⟩, ?_⟩
  · intro x hx
    rcases List.mem_cons.mp hx with rfl | hx
    · exact le_rfl
    · exact hv.1 x hx
  · intro x hx y hy
    rcases List.mem_cons.mp hy with rfl | hy
    · exact hab x hx y (List.mem_cons_self ..)
    · exact hab x hx y hy

/-- The slave receives the value that it has, or the next one. -/
theorem inv_slaveReceives {rest : List ℕ} (h : Inv s) (hframe : s.toSlave = v :: rest) :
    Inv (onWrite { s with toSlave := rest, obj4000 := v } 0x4000 0) := by
  have hline : s.line = s.toMaster ++ s.obj4001 :: v :: (rest ++ [s.tpdo4000]) := by
    rw [State.line, hframe, List.cons_append]
  have hsub : (s.toMaster ++ v :: (rest ++ [s.tpdo4000])).Sublist s.line := by
    rw [hline]
    exact (List.sublist_cons_self ..).append_left _
  have hcounts : Counts s.obj4001 v := by
    have hsorted := h.sorted
    rw [hline] at hsorted
    have hle : s.obj4001 ≤ v :=
      (List.pairwise_cons.mp (List.pairwise_append.mp hsorted).2.1).1 v (List.mem_cons_self ..)
    have hv : v ≤ s.tpdo4000 := h.le_tpdo4000 (by simp [hline])
    have hnear := h.near s.obj4001 (by simp [hline])
    rw [Counts]
    omega
  exact
    { sorted := h.sorted.sublist hsub
      near := fun x hx => h.near x (hsub.subset hx)
      slaveLast := List.getLastD_concat
      slaveCounts := isChain_concat h.slaveCounts (h.slaveLast ▸ hcounts)
      masterLast := h.masterLast
      masterCounts := h.masterCounts }

/-- The master receives the value before the one that it sends, or that one. -/
theorem inv_masterReceives {rest : List ℕ} (h : Inv s) (hframe : s.toMaster = v :: rest) :
    Inv (onRpdoWrite Nat.succ { s with toMaster := rest, rpdo4001 := v } 0x4001 0) := by
  have hline : s.line = v :: (rest ++ s.obj4001 :: s.toSlave) ++ [s.tpdo4000] := by
    rw [State.line, hframe]
    simp
  have hnear : s.tpdo4000 ≤ v + 1 := h.near v (by simp [hline])
  have hv : v ≤ s.tpdo4000 := h.le_tpdo4000 (by simp [hline])
  have hline' : rest ++ s.obj4001 :: (s.toSlave ++ [v + 1]) =
      (rest ++ s.obj4001 :: s.toSlave) ++ [v + 1] := by simp
  have hsorted := h.sorted
  rw [hline] at hsorted
  obtain ⟨hfront, -, -⟩ := List.pairwise_append.mp hsorted
  obtain ⟨hge, hrest⟩ := List.pairwise_cons.mp hfront
  refine ⟨?_, ?_, h.slaveLast, h.slaveCounts, List.getLastD_concat, ?_⟩
  · change (rest ++ s.obj4001 :: (s.toSlave ++ [v + 1])).Pairwise (· ≤ ·)
    rw [hline']
    refine List.pairwise_append.mpr ⟨hrest, List.pairwise_singleton .., fun x hx y hy => ?_⟩
    obtain rfl := List.mem_singleton.mp hy
    have hx' : x ≤ s.tpdo4000 := h.le_tpdo4000 (by
      rw [hline]
      exact List.mem_append_left _ (List.mem_cons_of_mem _ hx))
    omega
  · change ∀ x ∈ rest ++ s.obj4001 :: (s.toSlave ++ [v + 1]), v + 1 ≤ x + 1
    intro x hx
    rw [hline'] at hx
    rcases List.mem_append.mp hx with hx | hx
    · exact Nat.succ_le_succ (hge x hx)
    · rw [List.mem_singleton.mp hx]
      omega
  · have hcounts : Counts (s.tpdo4000 - 1) v := by
      rw [Counts]
      omega
    exact isChain_concat h.masterCounts (h.masterLast ▸ hcounts)

theorem inv_step {a : Action} (h : Inv s) (hstep : step Nat.succ s a = some s') : Inv s' := by
  cases a with
  | masterSends =>
    obtain rfl := Option.some.inj hstep
    have hline : s.toMaster ++ s.obj4001 :: (s.toSlave ++ [s.tpdo4000] ++ [s.tpdo4000]) =
        (s.toMaster ++ s.obj4001 :: s.toSlave) ++ s.tpdo4000 :: s.tpdo4000 :: [] := by simp
    refine h.frames ?_ ?_ rfl rfl rfl rfl
    · refine (congrArg _ hline).mpr (pairwise_repeat ?_)
      have hsorted := h.sorted
      rwa [State.line, ← List.cons_append, ← List.append_assoc] at hsorted
    · intro x hx
      simp only [State.line, List.mem_append, List.mem_cons, List.not_mem_nil, or_false] at hx ⊢
      tauto
  | slaveSends =>
    obtain rfl := Option.some.inj hstep
    refine h.frames ?_ ?_ rfl rfl rfl rfl
    · rw [State.line, List.append_assoc]
      exact pairwise_repeat h.sorted
    · intro x hx
      simp only [State.line, List.mem_append, List.mem_cons, List.not_mem_nil, or_false] at hx ⊢
      tauto
  | slaveReceives =>
    rw [step] at hstep
    split at hstep
    · cases hstep
    next hframe =>
      obtain rfl := Option.some.inj hstep
      exact inv_slaveReceives h hframe
  | masterReceives =>
    rw [step] at hstep
    split at hstep
    · cases hstep
    next hframe =>
      obtain rfl := Option.some.inj hstep
      exact inv_masterReceives h hframe
  | loseToSlave i =>
    obtain rfl := Option.some.inj hstep
    have hsub :
        (s.toMaster ++ s.obj4001 :: (s.toSlave.eraseIdx i ++ [s.tpdo4000])).Sublist s.line :=
      (((List.eraseIdx_sublist ..).append_right _).cons_cons _).append_left _
    exact h.frames (h.sorted.sublist hsub) hsub.subset rfl rfl rfl rfl
  | loseToMaster i =>
    obtain rfl := Option.some.inj hstep
    have hsub :
        (s.toMaster.eraseIdx i ++ s.obj4001 :: (s.toSlave ++ [s.tpdo4000])).Sublist s.line :=
      (List.eraseIdx_sublist ..).append_right _
    exact h.frames (h.sorted.sublist hsub) hsub.subset rfl rfl rfl rfl

theorem run_inv {acts : List Action} (h : run (step Nat.succ) (init 0) acts = some s) : Inv s :=
  run_invariant (fun hs hstep => inv_step hs hstep) inv_init h

/-! ## The values of the source -/

end CanopenCounter

end CppPlayground
