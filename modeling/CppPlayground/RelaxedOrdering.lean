import CppPlayground.RelaxedMemory
import Mathlib.Data.List.Range

/-!
# Five threads and three relaxed variables

In `memory_ordering_examples/relaxed_ordering.cpp` three threads count one variable each up from
0 to `loop_count`, and these and two more threads note the values of all three variables in each
turn of their loops. Everything is relaxed; `go` only makes the threads wait for each other.

The program is an instance of `RelaxedMemory`, each variable with one writer, and the position
of a store is four times its value. `printable_iff` says exactly which notes can be
printed: the threads may disagree about everything but the direction of the counting.
-/

namespace CppPlayground

namespace RelaxedOrdering

open RelaxedMemory

inductive Var
  | x
  | y
  | z
  deriving DecidableEq, Repr

inductive Thread
  | t1
  | t2
  | t3
  | t4
  | t5
  deriving DecidableEq, Repr

/-! ## The program -/

/-- `increment`. -/
def increment (varToInc : Var) (loopCount : ℕ) : List (Op Var ℕ) :=
  (List.range loopCount).flatMap fun i =>
    [.load .x, .load .y, .load .z, .store varToInc (i + 1)]

/-- `readValues`. -/
def readValues (loopCount : ℕ) : List (Op Var ℕ) :=
  (List.range loopCount).flatMap fun _ => [.load .x, .load .y, .load .z]

/-- The threads of `main`. -/
def program (loopCount : ℕ) : Thread → List (Op Var ℕ)
  | .t1 => increment .x loopCount
  | .t2 => increment .y loopCount
  | .t3 => increment .z loopCount
  | .t4 | .t5 => readValues loopCount

/-- The initial values of the variables, which are static. -/
def initial (_ : Var) : ℕ := 0

/-! ## Positions -/

/-- The body of the loop of a thread. -/
def body : Thread → ℕ → List (Op Var ℕ)
  | .t1, i => [.load .x, .load .y, .load .z, .store .x (i + 1)]
  | .t2, i => [.load .x, .load .y, .load .z, .store .y (i + 1)]
  | .t3, i => [.load .x, .load .y, .load .z, .store .z (i + 1)]
  | .t4, _ | .t5, _ => [.load .x, .load .y, .load .z]

def width : Thread → ℕ
  | .t1 | .t2 | .t3 => 4
  | .t4 | .t5 => 3

def Var.index : Var → ℕ
  | .x => 0
  | .y => 1
  | .z => 2

/-- The thread that stores to a variable. -/
def writer : Var → Thread
  | .x => .t1
  | .y => .t2
  | .z => .t3

/-- Where a thread loads a variable in turn `i`. -/
def position (t : Thread) (i : ℕ) (v : Var) : ℕ := width t * i + v.index

theorem program_eq (n : ℕ) (t : Thread) : program n t = (List.range n).flatMap (body t) := by
  cases t <;> rfl

theorem length_body (t : Thread) (i : ℕ) : (body t i).length = width t := by
  cases t <;> rfl

theorem index_lt (v : Var) (t : Thread) : v.index < width t := by
  cases v <;> cases t <;> decide

theorem getElem?_body_index (t : Thread) (i : ℕ) (v : Var) :
    (body t i)[v.index]? = some (.load v) := by
  cases t <;> cases v <;> rfl

/-- A list of blocks of one length, by block and offset. -/
theorem getElem?_flatMap_range {α : Type} {f : ℕ → List α} {w : ℕ} (hf : ∀ i, (f i).length = w)
    (n i : ℕ) {c : ℕ} (hc : c < w) :
    ((List.range n).flatMap f)[w * i + c]? = if i < n then (f i)[c]? else none := by
  have hlen : ∀ n, ((List.range n).flatMap f).length = w * n := by
    intro n
    induction n with
    | zero => simp
    | succ n ih =>
      rw [List.range_succ, List.flatMap_append, List.length_append, ih, List.flatMap_singleton, hf,
        Nat.mul_succ]
  induction n with
  | zero => simp
  | succ n ih =>
    rw [List.range_succ, List.flatMap_append, List.flatMap_singleton, List.getElem?_append, hlen]
    rcases Nat.lt_trichotomy i n with hlt | rfl | hgt
    · have hin : w * i + c < w * n := by
        have hmul := Nat.mul_le_mul_left w hlt
        rw [Nat.mul_succ] at hmul
        omega
      rw [if_pos hin, ih, if_pos hlt, if_pos (by omega)]
    · rw [if_neg (by omega), if_pos (by omega), Nat.add_sub_cancel_left]
    · have hout : w * n + w ≤ w * i := by
        have hmul := Nat.mul_le_mul_left w hgt
        rwa [Nat.mul_succ] at hmul
      rw [if_neg (by omega), if_neg (by omega), List.getElem?_eq_none (by rw [hf]; omega)]

theorem getElem?_program (n : ℕ) (t : Thread) (i : ℕ) {c : ℕ} (hc : c < width t) :
    (program n t)[width t * i + c]? = if i < n then (body t i)[c]? else none := by
  rw [program_eq, getElem?_flatMap_range (length_body t) n i hc]

/-- Each position is in a turn of the loop. -/
theorem program_some {n k : ℕ} {t : Thread} {op : Op Var ℕ} (h : (program n t)[k]? = some op) :
    ∃ i c, k = width t * i + c ∧ i < n ∧ (body t i)[c]? = some op := by
  have hw : 0 < width t := by cases t <;> decide
  refine ⟨k / width t, k % width t, (Nat.div_add_mod ..).symm, ?_⟩
  rw [← Nat.div_add_mod k (width t), getElem?_program n t _ (Nat.mod_lt k hw)] at h
  split at h
  · exact ⟨‹_›, h⟩
  · cases h

theorem load_position {n i : ℕ} (hi : i < n) (t : Thread) (v : Var) :
    (program n t)[position t i v]? = some (.load v) := by
  rw [position, getElem?_program n t i (index_lt v t), if_pos hi, getElem?_body_index]

theorem body_load_inv {t : Thread} {i c : ℕ} {v : Var} (h : (body t i)[c]? = some (.load v)) :
    c = v.index := by
  cases t <;> rcases c with _ | _ | _ | _ | c <;> cases h <;> rfl

theorem body_store_inv {t : Thread} {i c u : ℕ} {v : Var}
    (h : (body t i)[c]? = some (.store v u)) : t = writer v ∧ c = 3 ∧ u = i + 1 := by
  cases t <;> rcases c with _ | _ | _ | _ | c <;> cases h <;> exact ⟨rfl, rfl, rfl⟩

theorem load_inv {n k : ℕ} {t : Thread} {v : Var} (h : (program n t)[k]? = some (.load v)) :
    ∃ i < n, k = position t i v := by
  obtain ⟨i, c, rfl, hi, hbody⟩ := program_some h
  exact ⟨i, hi, by rw [position, body_load_inv hbody]⟩

theorem width_writer (v : Var) : width (writer v) = 4 := by
  cases v <;> rfl

theorem store_inv {n k u : ℕ} {t : Thread} {v : Var}
    (h : (program n t)[k]? = some (.store v u)) :
    t = writer v ∧ ∃ i < n, k = 4 * i + 3 ∧ u = i + 1 := by
  obtain ⟨i, c, rfl, hi, hbody⟩ := program_some h
  obtain ⟨rfl, rfl, rfl⟩ := body_store_inv hbody
  exact ⟨rfl, i, hi, by rw [width_writer], rfl⟩

theorem store_position {n i : ℕ} (hi : i < n) (v : Var) :
    (program n (writer v))[4 * i + 3]? = some (.store v (i + 1)) := by
  have hc : 3 < width (writer v) := by rw [width_writer]; decide
  have hget := getElem?_program n (writer v) i hc
  rw [width_writer, if_pos hi] at hget
  rw [hget]
  cases v <;> rfl

theorem onlyWriter (n : ℕ) (v : Var) : OnlyWriter (program n) v (writer v) :=
  fun h => (store_inv h).1

/-! ## Values and positions -/

/-- The write with this value. -/
def sourceOf (v : Var) : ℕ → Option (Thread × ℕ)
  | 0 => none
  | u + 1 => some (writer v, 4 * u + 3)

theorem stamp_sourceOf (v : Var) (u : ℕ) : stamp (sourceOf v u) = 4 * u := by
  cases u <;> rfl

theorem writesTo_sourceOf {n u : ℕ} (hu : u ≤ n) (v : Var) :
    WritesTo (program n) initial v (sourceOf v u) u := by
  cases u with
  | zero => exact .initial
  | succ u => exact .store (store_position hu v)

theorem writesTo_inv {n u : ℕ} {v : Var} {a : Option (Thread × ℕ)}
    (h : WritesTo (program n) initial v a u) : stamp a = 4 * u ∧ u ≤ n := by
  cases h with
  | initial => exact ⟨rfl, Nat.zero_le n⟩
  | store hstore =>
    obtain ⟨-, i, hi, rfl, rfl⟩ := store_inv hstore
    exact ⟨rfl, hi⟩

theorem position_lt_position {t : Thread} {i j : ℕ} (h : i < j) (v : Var) :
    position t i v < position t j v :=
  Nat.add_lt_add_right (Nat.mul_lt_mul_of_pos_left h (Nat.zero_lt_of_lt (index_lt v t))) _

theorem position_writer (i : ℕ) (v : Var) : position (writer v) i v = 4 * i + v.index := by
  rw [position, width_writer]

theorem lt_of_position_lt {t : Thread} {i j : ℕ} {v : Var}
    (h : position t i v < position t j v) : i < j := by
  by_contra hle
  have hmul := Nat.mul_le_mul_left (width t) (Nat.not_lt.mp hle)
  simp only [position] at h
  omega

/-! ## The tables -/

/-- What the threads can have written to `values1` to `values5`: row `i` of each table, with a
column for each variable. -/
def Printable (loopCount : ℕ) (table : Thread → ℕ → Var → ℕ) : Prop :=
  ∃ value, Possible (program loopCount) initial value ∧
    ∀ t v, ∀ i < loopCount, table t i v = value t (position t i v)

/-- The tables in which no column goes down or beyond the last value, and each writer sees its
own stores at once. -/
structure Counting (loopCount : ℕ) (table : Thread → ℕ → Var → ℕ) : Prop where
  le : ∀ t v, ∀ i < loopCount, table t i v ≤ loopCount
  mono : ∀ t v i j, i < j → j < loopCount → table t i v ≤ table t j v
  own : ∀ v, ∀ i < loopCount, table (writer v) i v = i

variable {n : ℕ} {table : Thread → ℕ → Var → ℕ}

theorem Printable.counting (h : Printable n table) : Counting n table := by
  obtain ⟨value, hpossible, htable⟩ := h
  obtain ⟨source, hreads, horder⟩ := (possible_iff (onlyWriter n)).mp hpossible
  have hstamp : ∀ t v, ∀ i < n, stamp (source t (position t i v)) = 4 * table t i v := by
    intro t v i hi
    rw [htable t v i hi]
    exact (writesTo_inv (hreads (load_position hi t v))).1
  refine ⟨fun t v i hi => ?_, fun t v i j hij hj => ?_, fun v i hi => ?_⟩
  · rw [htable t v i hi]
    exact (writesTo_inv (hreads (load_position hi t v))).2
  · have hle := horder.read_read (position_lt_position hij v)
      (load_position (hij.trans hj) t v) (load_position hj t v)
    rw [hstamp t v i (hij.trans hj), hstamp t v j hj] at hle
    omega
  · have hindex := index_lt v .t4
    have hpos := position_writer i v
    simp only [width] at hindex
    -- the store of this turn comes behind the load, that of the turn before in front of it
    have hnext := horder.read_write (j := 4 * i + 3) (by omega) (load_position hi (writer v) v)
      (store_position hi v)
    rw [hstamp (writer v) v i hi] at hnext
    cases i with
    | zero => omega
    | succ i =>
      have hlast := horder.write_read (i := 4 * i + 3) (by omega)
        (store_position (Nat.lt_of_succ_lt hi) v) (load_position hi (writer v) v)
      rw [hstamp (writer v) v (i + 1) hi] at hlast
      omega

/-- The variable at an offset. -/
def varAt : ℕ → Var
  | 0 => .x
  | 1 => .y
  | _ => .z

theorem position_div (t : Thread) (i : ℕ) (v : Var) : position t i v / width t = i := by
  have hlt := index_lt v t
  rw [position, Nat.mul_add_div (Nat.zero_lt_of_lt hlt), Nat.div_eq_of_lt hlt, Nat.add_zero]

theorem varAt_position (t : Thread) (i : ℕ) (v : Var) : varAt (position t i v % width t) = v := by
  rw [position, Nat.mul_add_mod, Nat.mod_eq_of_lt (index_lt v t)]
  cases v <;> rfl

/-- The table, read by position. -/
def valueOf (table : Thread → ℕ → Var → ℕ) (t : Thread) (k : ℕ) : ℕ :=
  table t (k / width t) (varAt (k % width t))

theorem valueOf_position (t : Thread) (i : ℕ) (v : Var) :
    valueOf table t (position t i v) = table t i v := by
  rw [valueOf, position_div, varAt_position]

theorem Counting.inOrder (h : Counting n table) :
    InOrder (program n) fun t k => sourceOf (varAt (k % width t)) (valueOf table t k) where
  read_read hlt hload hload' := by
    obtain ⟨i, hi, rfl⟩ := load_inv hload
    obtain ⟨j, hj, rfl⟩ := load_inv hload'
    simp only [stamp_sourceOf, valueOf_position]
    exact Nat.mul_le_mul_left 4 (h.mono _ _ i j (lt_of_position_lt hlt) hj)
  read_write hlt hload hstore := by
    obtain ⟨i, hi, rfl⟩ := load_inv hload
    obtain ⟨rfl, j, hj, rfl, -⟩ := store_inv hstore
    rw [position_writer] at hlt
    simp only [stamp_sourceOf, valueOf_position, h.own _ i hi]
    omega
  write_read hlt hstore hload := by
    obtain ⟨rfl, i, hi, rfl, -⟩ := store_inv hstore
    obtain ⟨j, hj, rfl⟩ := load_inv hload
    have hindex := index_lt ‹Var› .t4
    rw [position_writer] at hlt
    simp only [width] at hindex
    simp only [stamp_sourceOf, valueOf_position, h.own _ j hj]
    omega

theorem Counting.printable (h : Counting n table) : Printable n table := by
  refine ⟨valueOf table, (possible_iff (onlyWriter n)).mpr ⟨_, ?_, h.inOrder⟩, ?_⟩
  · intro v t k hload
    obtain ⟨i, hi, rfl⟩ := load_inv hload
    simp only [varAt_position, valueOf_position]
    exact writesTo_sourceOf (h.le t v i hi) v
  · intro t v i _
    rw [valueOf_position]

/-- **What can be printed.** With relaxed loads and stores exactly those tables can come out in
which every column goes up from 0 to `loop_count` with repetitions and gaps, and in which the
column of a thread's own variable counts its turns. Nothing relates the columns to each other, or
the tables. -/
theorem printable_iff (loopCount : ℕ) (table : Thread → ℕ → Var → ℕ) :
    Printable loopCount table ↔ Counting loopCount table :=
  ⟨Printable.counting, Counting.printable⟩

end RelaxedOrdering

end CppPlayground
