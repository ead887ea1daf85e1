import Mathlib.Data.List.Basic

/-!
# Lists that are read while they are updated

A list of nodes behind a head is kept in a memory. Who walks along it follows `next` from node to
node, until the head is reached again. An update is a sequence of stores, and between two of them
others may look at the list.

`ListOps` is what such a list offers, and `ListOps.Correct` what its users rely on: after all
stores of an update the list is what it should be; before the last store of an `add` nobody
notices it; and a node that is taken out still leads to the one behind it.
-/

namespace SharedList

variable {N M : Type*}

/-- Where the way through these nodes and back to the head begins. -/
def first (head : N) (xs : List N) : N := xs.headD head

@[simp] theorem first_nil {head : N} : first head [] = head := rfl

@[simp] theorem first_cons {head x : N} {xs : List N} : first head (x :: xs) = x := rfl

/-! ## Stores -/

/-- Stores for a node, one after the other. -/
def perform (stores : List (M → N → M)) (m : M) (n : N) : M :=
  stores.foldl (fun m store => store m n) m

variable {stores : List (M → N → M)} {store : M → N → M} {m : M} {n : N} {k : ℕ}

theorem perform_take_zero : perform (stores.take 0) m n = m := rfl

theorem perform_take_succ (h : stores[k]? = some store) :
    perform (stores.take (k + 1)) m n = store (perform (stores.take k) m n) n := by
  rw [List.take_add_one, h, perform, List.foldl_append]
  rfl

theorem perform_take_of_last (hk : ¬ k + 1 < stores.length) :
    perform (stores.take (k + 1)) m n = perform stores m n := by
  rw [List.take_of_length_le (Nat.le_of_not_lt hk)]

/-! ## Operations -/

/-- What a list offers. -/
structure ListOps (N M : Type*) where
  /-- the memory of a list without nodes -/
  empty : M
  /-- what a node leads to -/
  next : M → N → N
  /-- the stores that put a node in front -/
  add : List (M → N → M)
  /-- the stores that take a node out -/
  remove : List (M → N → M)

/-- What is assumed of a list behind `head`. `Holds m xs` says that the memory holds the list of
these nodes. -/
structure ListOps.Correct (ops : ListOps N M) (head : N) (Holds : M → List N → Prop) : Prop where
  empty : Holds ops.empty []
  next_head : ∀ {m xs}, Holds m xs → ops.next m head = first head xs
  next : ∀ {m xs x ys}, Holds m (xs ++ x :: ys) → ops.next m x = first head ys
  add : ∀ {m xs n}, Holds m xs → n ∉ head :: xs → Holds (perform ops.add m n) (n :: xs)
  /-- before its last store an `add` changes nothing on anybody's way -/
  next_add_take : ∀ {m xs n c k}, Holds m xs → n ∉ head :: xs → c ≠ n → k < ops.add.length →
    ops.next (perform (ops.add.take k) m n) c = ops.next m c
  /-- and with it only where the head leads to, also for those on nodes that were taken out -/
  next_add : ∀ {m xs n c}, Holds m xs → n ∉ head :: xs → c ≠ n → c ≠ head →
    ops.next (perform ops.add m n) c = ops.next m c
  remove : ∀ {m xs x ys}, Holds m (xs ++ x :: ys) → Holds (perform ops.remove m x) (xs ++ ys)
  /-- a node that is taken out still leads on -/
  next_remove : ∀ {m xs x ys}, Holds m (xs ++ x :: ys) →
    ops.next (perform ops.remove m x) x = ops.next m x

end SharedList
