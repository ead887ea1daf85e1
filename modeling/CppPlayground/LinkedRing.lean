import CppPlayground.SharedList
import Mathlib.Data.List.Basic
import Mathlib.Data.List.Nodup
import Mathlib.Logic.Function.Basic

/-!
# Circular doubly linked lists

Nodes are linked forward and backward in a ring through a head, which is a node that holds no
element. `IsRing links head xs` says that the links lead from the head through `xs`, each node
once, and back to the head.

A new node is put in front by four stores and a node is taken out by two. Each store is an
operation of its own, so that a program can be interrupted in between; `IsRing.add` and
`IsRing.remove` are about all of them in order. Until the last store of `add` the links that a
reader follows are as before. A node that is taken out still leads to the one behind it
(`next_remove_self`), so that a reader that stands on it gets on. So a ring is a list that can be
read while it is updated (`ringOps_correct`).
-/

namespace LinkedRing

open SharedList (first perform ListOps)

/-- The links of all nodes. -/
structure Links (N : Type*) where
  next : N → N
  prev : N → N

/-! ## Paths -/

section Paths

variable {N : Type*} {l l' : Links N} {a x head : N} {xs ys : List N}

/-- Each node of the list is linked to the one behind it, and back. -/
def Linked (l : Links N) : List N → Prop
  | a :: b :: xs => (l.next a = b ∧ l.prev b = a) ∧ Linked l (b :: xs)
  | _ => True

theorem linked_concat_cons :
    Linked l (xs ++ a :: ys) ↔ Linked l (xs ++ [a]) ∧ Linked l (a :: ys) := by
  induction xs with
  | nil => exact ⟨fun h => ⟨trivial, h⟩, fun h => h.2⟩
  | cons c xs ih =>
    cases xs with
    | nil => exact ⟨fun h => ⟨⟨h.1, trivial⟩, h.2⟩, fun h => ⟨h.1.1, h.2⟩⟩
    | cons d xs =>
      simp only [List.cons_append, Linked] at ih ⊢
      rw [ih]
      exact and_assoc.symm

/-- Only the links between its nodes matter to a path. -/
theorem Linked.congr (hnext : ∀ c ∈ xs.dropLast, l'.next c = l.next c)
    (hprev : ∀ c ∈ xs.tail, l'.prev c = l.prev c) (h : Linked l xs) : Linked l' xs := by
  induction xs with
  | nil => trivial
  | cons c xs ih =>
    cases xs with
    | nil => trivial
    | cons d xs =>
      obtain ⟨⟨hcd, hdc⟩, hrest⟩ := h
      refine ⟨⟨?_, ?_⟩, ih (fun e he => ?_) (fun e he => ?_) hrest⟩
      · rw [hnext c (by simp), hcd]
      · rw [hprev d (by simp), hdc]
      · exact hnext e (by simpa using .inr he)
      · exact hprev e (List.mem_cons_of_mem d he)

/-- The links lead from the head through these nodes and back. -/
structure IsRing (l : Links N) (head : N) (xs : List N) : Prop where
  linked : Linked l (head :: (xs ++ [head]))
  nodup : (head :: xs).Nodup

theorem exists_concat_head (head : N) (xs : List N) :
    ∃ bs, xs ++ [head] = first head xs :: bs := by
  cases xs with
  | nil => exact ⟨[], rfl⟩
  | cons x xs => exact ⟨xs ++ [head], rfl⟩

/-- What is behind a node of the ring. -/
theorem IsRing.next_eq (h : IsRing l head (xs ++ x :: ys)) : l.next x = first head ys := by
  obtain ⟨bs, hbs⟩ := exists_concat_head head ys
  have hlinked := h.linked
  rw [List.append_assoc, List.cons_append, hbs, ← List.cons_append, linked_concat_cons] at hlinked
  exact hlinked.2.1.1

theorem IsRing.next_head (h : IsRing l head xs) : l.next head = first head xs := by
  obtain ⟨bs, hbs⟩ := exists_concat_head head xs
  have hlinked := h.linked
  rw [hbs] at hlinked
  exact hlinked.1.1

end Paths

/-! ## The stores -/

variable {N : Type*} [DecidableEq N] (l : Links N) (head n x : N)

/-- The first store of `add`: the new node leads to what is behind the head. -/
def setNext : Links N := { l with next := Function.update l.next n (l.next head) }

/-- The second store of `add`. -/
def setPrev : Links N := { l with prev := Function.update l.prev n head }

/-- The third store of `add`: the way back goes over the new node. -/
def linkPrev : Links N := { l with prev := Function.update l.prev (l.next head) n }

/-- The last store of `add`: the way forward goes over the new node. -/
def publish : Links N := { l with next := Function.update l.next head n }

/-- A new node is put in front. -/
def add : Links N := publish (linkPrev (setPrev (setNext l head n) head n) head n) head n

/-- The first store of `remove`: the way back leaves the node out. -/
def skipPrev : Links N := { l with prev := Function.update l.prev (l.next x) (l.prev x) }

/-- The second store of `remove`: the way forward leaves the node out. -/
def skipNext : Links N := { l with next := Function.update l.next (l.prev x) (l.next x) }

/-- A node is taken out. -/
def remove : Links N := skipNext (skipPrev l x) x

/-! ## Rings stay rings -/

section Rings

variable {l head n x} {xs ys : List N}

theorem add_eq (h : head ≠ n) :
    add l head n = {
      next := Function.update (Function.update l.next n (l.next head)) head n
      prev := Function.update (Function.update l.prev n head) (l.next head) n } := by
  simp only [add, publish, linkPrev, setPrev, setNext, Function.update_of_ne h]

theorem remove_eq (hnext : l.next x ≠ x) :
    remove l x = {
      next := Function.update l.next (l.prev x) (l.next x)
      prev := Function.update l.prev (l.next x) (l.prev x) } := by
  simp only [remove, skipNext, skipPrev, Function.update_of_ne hnext.symm]

/-- The new node's four links are as they should be, and the other links of the ring are between
nodes that the stores leave alone. -/
theorem IsRing.add (h : IsRing l head xs) (hn : n ∉ head :: xs) :
    IsRing (add l head n) head (n :: xs) := by
  obtain ⟨bs, hbs⟩ := exists_concat_head head xs
  have hlinked := h.linked
  have hback : (first head xs :: bs).Nodup := hbs ▸ List.nodup_append_comm.1 h.nodup
  have hdrop : (first head xs :: bs).dropLast = xs := by rw [← hbs, List.dropLast_concat]
  have hne : ∀ c ∈ first head xs :: bs, c ≠ n := by
    rintro c hc rfl
    rw [← hbs, List.mem_append, List.mem_singleton] at hc
    exact hn (List.mem_cons.2 hc.symm)
  have hhead : head ≠ n := fun he => hn (he ▸ List.mem_cons_self)
  rw [hbs] at hlinked
  rw [add_eq hhead, h.next_head]
  refine ⟨?_, (List.Perm.swap head n xs).nodup_iff.1 (List.nodup_cons.2 ⟨hn, h.nodup⟩)⟩
  rw [List.cons_append, hbs]
  refine ⟨⟨?_, ?_⟩, ⟨?_, ?_⟩, hlinked.2.congr (fun c hc => ?_) (fun c hc => ?_)⟩ <;>
    dsimp only
  · exact Function.update_self ..
  · rw [Function.update_of_ne (hne _ List.mem_cons_self).symm, Function.update_self]
  · rw [Function.update_of_ne hhead.symm, Function.update_self]
  · exact Function.update_self ..
  · rw [hdrop] at hc
    have hc' : c ≠ head := fun he => (List.nodup_cons.1 h.nodup).1 (he ▸ hc)
    have hcn : c ≠ n := fun he => hn (he ▸ List.mem_cons_of_mem head hc)
    rw [Function.update_of_ne hc', Function.update_of_ne hcn]
  · have hc' : c ≠ first head xs := fun he => (List.nodup_cons.1 hback).1 (he ▸ hc)
    rw [Function.update_of_ne hc', Function.update_of_ne (hne c (.tail _ hc))]

/-- The node before and the node behind get linked; the paths up to the one and from the other on
stay as they are. -/
theorem IsRing.remove (h : IsRing l head (xs ++ x :: ys)) :
    IsRing (remove l x) head (xs ++ ys) := by
  obtain ⟨bs, hbs⟩ := exists_concat_head head ys
  obtain ⟨as, p, hp⟩ : ∃ as p, head :: xs = as ++ [p] :=
    ⟨_, _, (List.dropLast_append_getLast (List.cons_ne_nil head xs)).symm⟩
  have hnodup := h.nodup
  have hlinked := h.linked
  rw [List.append_assoc, List.cons_append, hbs, ← List.cons_append, hp, List.append_assoc,
    List.singleton_append, linked_concat_cons] at hlinked
  obtain ⟨hbefore, ⟨-, hprev⟩, -, hbehind⟩ := hlinked
  have hmemBefore : ∀ c, c ∈ as ++ [p] ↔ c = head ∨ c ∈ xs := by simp [← hp]
  have hmemBehind : ∀ c, c ∈ first head ys :: bs ↔ c ∈ ys ∨ c = head := by simp [← hbs]
  have htail : (as ++ [p]).tail = xs := by rw [← hp, List.tail_cons]
  have hdrop : (first head ys :: bs).dropLast = ys := by rw [← hbs, List.dropLast_concat]
  have hnext : first head ys ≠ x := by grind
  rw [remove_eq (h.next_eq ▸ hnext), h.next_eq, hprev]
  refine ⟨?_, by grind⟩
  rw [List.append_assoc, hbs, ← List.cons_append, hp, List.append_assoc, List.singleton_append,
    linked_concat_cons]
  refine ⟨hbefore.congr (fun c hc => ?_) (fun c hc => ?_), ⟨?_, ?_⟩,
    hbehind.congr (fun c hc => ?_) (fun c hc => ?_)⟩
  -- up to the node before: its link forward is the last, and nothing leads back to the other one
  · have hbeforeNodup : (as ++ [p]).Nodup := by grind
    rw [List.dropLast_concat] at hc
    exact Function.update_of_ne (by grind) _ _
  · rw [htail] at hc
    exact Function.update_of_ne (by grind) _ _
  · exact Function.update_self ..
  · exact Function.update_self ..
  -- from the node behind on, the other way round
  · rw [hdrop] at hc
    exact Function.update_of_ne (by grind) _ _
  · have hbehindNodup : (first head ys :: bs).Nodup := by
      rw [← hbs]
      grind
    exact Function.update_of_ne (by grind) _ _

/-- A reader that stands on the node that is taken out gets to the one behind it. -/
theorem next_remove_self : (LinkedRing.remove l x).next x = l.next x := by
  dsimp only [LinkedRing.remove, skipNext, skipPrev]
  rw [Function.update_apply]
  split <;> rfl

end Rings

/-! ## A list -/

/-- The operations of a ring. -/
def ringOps (head : N) : ListOps N (Links N) where
  empty := ⟨fun _ => head, fun _ => head⟩
  next := Links.next
  add := [fun l n => setNext l head n, fun l n => setPrev l head n, fun l n => linkPrev l head n,
    fun l n => publish l head n]
  remove := [skipPrev, skipNext]

variable {l head n x}

/-- The first three stores write no link that leads on, but that of the new node. -/
theorem next_perform_take {c : N} {k : ℕ} (hc : c ≠ n) (hk : k < 4) :
    (perform ((ringOps head).add.take k) l n).next c = l.next c := by
  have hcases : k = 0 ∨ k = 1 ∨ k = 2 ∨ k = 3 := by omega
  rcases hcases with rfl | rfl | rfl | rfl
  · rfl
  all_goals exact Function.update_of_ne hc _ _

theorem ringOps_correct (head : N) :
    (ringOps head).Correct head fun l xs => IsRing l head xs where
  empty := ⟨⟨⟨rfl, rfl⟩, trivial⟩, List.nodup_singleton _⟩
  next_head := IsRing.next_head
  next := IsRing.next_eq
  add := IsRing.add
  next_add_take := fun _ _ hc hk => next_perform_take hc hk
  next_add := by
    intro l xs n c _ hn hc hhead
    have hne : head ≠ n := fun h => hn (h ▸ List.mem_cons_self)
    show (LinkedRing.add l head n).next c = l.next c
    rw [add_eq hne]
    dsimp only
    rw [Function.update_of_ne hhead, Function.update_of_ne hc]
  remove := IsRing.remove
  next_remove := fun _ => next_remove_self

end LinkedRing
