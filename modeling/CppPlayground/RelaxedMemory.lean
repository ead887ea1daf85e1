import Mathlib.Data.Nat.Notation
import Mathlib.Order.Basic

/-!
# Executions with relaxed atomic variables

Threads load and store atomic variables in the weakest order that the language has. There is no
common history then, and what one thread reads says nothing about the order in which another one
acts. What is left is *coherence*, for each variable on its own: its writes have one order, the
modification order, and a thread never goes back in it.

* `Coherent` — where each load reads from and the modification orders, with the four
  requirements for two accesses of one thread to one variable.
* `Possible` — the values that the loads of a program can give together.
* `possible_iff` — for programs in which each variable is stored to by one thread only. The
  modification order is then the order of that thread, so that it is enough to count positions.
-/

namespace RelaxedMemory

/-- An access to an atomic variable. -/
inductive Op (L V : Type*)
  | load (ℓ : L)
  | store (ℓ : L) (v : V)
  deriving DecidableEq, Repr

variable {T L V : Type*}

/-- A write to this variable and its value: the initial one, or the store at a position of a
thread. -/
inductive WritesTo (program : T → List (Op L V)) (initial : L → V) (ℓ : L) :
    Option (T × ℕ) → V → Prop
  | initial : WritesTo program initial ℓ none (initial ℓ)
  | store {t : T} {k : ℕ} {v : V} (h : (program t)[k]? = some (.store ℓ v)) :
      WritesTo program initial ℓ (some (t, k)) v

/-- The loads read from these writes, which come in this order. -/
structure Coherent (program : T → List (Op L V)) (initial : L → V)
    (source : T → ℕ → Option (T × ℕ)) (before : L → Option (T × ℕ) → Option (T × ℕ) → Prop) :
    Prop where
  irrefl : ∀ ℓ a, ¬ before ℓ a a
  trans : ∀ {ℓ a b c}, before ℓ a b → before ℓ b c → before ℓ a c
  total : ∀ {ℓ a b u v}, WritesTo program initial ℓ a u → WritesTo program initial ℓ b v →
    a ≠ b → before ℓ a b ∨ before ℓ b a
  initial : ∀ {ℓ t k v}, (program t)[k]? = some (.store ℓ v) → before ℓ none (some (t, k))
  write_write : ∀ {ℓ t i j u v}, i < j → (program t)[i]? = some (.store ℓ u) →
    (program t)[j]? = some (.store ℓ v) → before ℓ (some (t, i)) (some (t, j))
  read_read : ∀ {ℓ t i j}, i < j → (program t)[i]? = some (.load ℓ) →
    (program t)[j]? = some (.load ℓ) → ¬ before ℓ (source t j) (source t i)
  read_write : ∀ {ℓ t i j v}, i < j → (program t)[i]? = some (.load ℓ) →
    (program t)[j]? = some (.store ℓ v) → before ℓ (source t i) (some (t, j))
  write_read : ∀ {ℓ t i j v}, i < j → (program t)[i]? = some (.store ℓ v) →
    (program t)[j]? = some (.load ℓ) → ¬ before ℓ (source t j) (some (t, i))

/-- The loads give these values if they read from these writes. -/
def Reads (program : T → List (Op L V)) (initial : L → V) (source : T → ℕ → Option (T × ℕ))
    (value : T → ℕ → V) : Prop :=
  ∀ {ℓ : L} {t : T} {k : ℕ}, (program t)[k]? = some (.load ℓ) →
    WritesTo program initial ℓ (source t k) (value t k)

/-- There is an execution in which the loads give these values. -/
def Possible (program : T → List (Op L V)) (initial : L → V) (value : T → ℕ → V) : Prop :=
  ∃ source before, Coherent program initial source before ∧ Reads program initial source value

/-! ## One writer for each variable -/

/-- Only this thread stores to the variable. -/
def OnlyWriter (program : T → List (Op L V)) (ℓ : L) (w : T) : Prop :=
  ∀ {t : T} {k : ℕ} {v : V}, (program t)[k]? = some (.store ℓ v) → t = w

/-- The position behind a write. -/
def stamp : Option (T × ℕ) → ℕ
  | none => 0
  | some (_, k) => k + 1

/-- A thread does not go back, and the writer always reads its own latest store. -/
structure InOrder (program : T → List (Op L V)) (source : T → ℕ → Option (T × ℕ)) : Prop where
  read_read : ∀ {ℓ t i j}, i < j → (program t)[i]? = some (.load ℓ) →
    (program t)[j]? = some (.load ℓ) → stamp (source t i) ≤ stamp (source t j)
  read_write : ∀ {ℓ t i j v}, i < j → (program t)[i]? = some (.load ℓ) →
    (program t)[j]? = some (.store ℓ v) → stamp (source t i) ≤ j
  write_read : ∀ {ℓ t i j v}, i < j → (program t)[i]? = some (.store ℓ v) →
    (program t)[j]? = some (.load ℓ) → i < stamp (source t j)

variable {program : T → List (Op L V)} {initial : L → V} {source : T → ℕ → Option (T × ℕ)}
  {before : L → Option (T × ℕ) → Option (T × ℕ) → Prop} {value : T → ℕ → V} {writer : L → T}

theorem eq_of_stamp_eq (hw : ∀ ℓ, OnlyWriter program ℓ (writer ℓ)) {ℓ : L}
    {a b : Option (T × ℕ)} {u v : V} (ha : WritesTo program initial ℓ a u)
    (hb : WritesTo program initial ℓ b v) (h : stamp a = stamp b) : a = b := by
  cases ha with
  | initial =>
    cases hb with
    | initial => rfl
    | store => cases h
  | store hstore =>
    cases hb with
    | initial => cases h
    | store hstore' =>
      rw [hw ℓ hstore, hw ℓ hstore', Nat.succ.inj h]

/-- The modification order is the order of the positions. -/
theorem Coherent.before_of_stamp_lt (h : Coherent program initial source before)
    (hw : ∀ ℓ, OnlyWriter program ℓ (writer ℓ)) {ℓ : L} {a b : Option (T × ℕ)} {u v : V}
    (ha : WritesTo program initial ℓ a u) (hb : WritesTo program initial ℓ b v)
    (hlt : stamp a < stamp b) : before ℓ a b := by
  cases hb with
  | initial => cases hlt
  | store hb =>
    cases ha with
    | initial => exact h.initial hb
    | store ha =>
      cases (hw ℓ ha).trans (hw ℓ hb).symm
      exact h.write_write (Nat.lt_of_succ_lt_succ hlt) ha hb

theorem Coherent.before_iff (h : Coherent program initial source before)
    (hw : ∀ ℓ, OnlyWriter program ℓ (writer ℓ)) {ℓ : L} {a b : Option (T × ℕ)} {u v : V}
    (ha : WritesTo program initial ℓ a u) (hb : WritesTo program initial ℓ b v) :
    before ℓ a b ↔ stamp a < stamp b := by
  refine ⟨fun hab => ?_, h.before_of_stamp_lt hw ha hb⟩
  rcases Nat.lt_trichotomy (stamp a) (stamp b) with hlt | heq | hgt
  · exact hlt
  · rw [eq_of_stamp_eq hw ha hb heq] at hab
    exact absurd hab (h.irrefl ℓ b)
  · exact absurd (h.trans hab (h.before_of_stamp_lt hw hb ha hgt)) (h.irrefl ℓ a)

theorem Coherent.inOrder (h : Coherent program initial source before)
    (hw : ∀ ℓ, OnlyWriter program ℓ (writer ℓ)) (hreads : Reads program initial source value) :
    InOrder program source where
  read_read hlt hi hj := by
    have hnot := h.read_read hlt hi hj
    rwa [h.before_iff hw (hreads hj) (hreads hi), Nat.not_lt] at hnot
  read_write hlt hi hj := by
    have hbefore := h.read_write hlt hi hj
    rw [h.before_iff hw (hreads hi) (.store hj)] at hbefore
    exact Nat.le_of_lt_succ hbefore
  write_read hlt hi hj := by
    have hnot := h.write_read hlt hi hj
    rw [h.before_iff hw (hreads hj) (.store hi), Nat.not_lt] at hnot
    exact hnot

theorem InOrder.coherent (h : InOrder program source)
    (hw : ∀ ℓ, OnlyWriter program ℓ (writer ℓ)) :
    Coherent program initial source fun _ a b => stamp a < stamp b where
  irrefl _ _ := Nat.lt_irrefl _
  trans := Nat.lt_trans
  total ha hb hne :=
    Nat.lt_or_gt_of_ne fun heq => hne (eq_of_stamp_eq hw ha hb heq)
  initial _ := Nat.succ_pos _
  write_write hlt _ _ := Nat.succ_lt_succ hlt
  read_read hlt hi hj := Nat.not_lt.mpr (h.read_read hlt hi hj)
  read_write hlt hi hj := Nat.lt_succ_of_le (h.read_write hlt hi hj)
  write_read hlt hi hj := Nat.not_lt.mpr (h.write_read hlt hi hj)

/-- **Rule for one writer per variable.** -/
theorem possible_iff (hw : ∀ ℓ, OnlyWriter program ℓ (writer ℓ)) :
    Possible program initial value ↔
      ∃ source, Reads program initial source value ∧ InOrder program source := by
  constructor
  · rintro ⟨source, before, hcoherent, hreads⟩
    exact ⟨source, hreads, hcoherent.inOrder hw hreads⟩
  · rintro ⟨source, hreads, horder⟩
    exact ⟨source, _, horder.coherent hw, hreads⟩

end RelaxedMemory
