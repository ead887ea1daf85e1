import CppPlayground.LinkedRing
import CppPlayground.Machine

/-!
# A list that one thread fills and another empties

In `third_party_examples/urcu_examples/main.cpp` the thread `writer` puts three nodes into a list
of liburcu and the thread `reader` walks along the list, again and again, and takes out what it
comes to, until it has counted three. Readers of such a list need no lock, but, as the comments in
the source say, updates "require mutual exclusion". Here both threads update the list and nothing
keeps them apart.

`run_reader` says what the program does in the runs in which no two updates overlap: the reader
reads each value once, and the loop in `main` that is to free the nodes finds none. The run behind
it shows what happens otherwise: a node that is taken out comes back and is read once more, and
another one is never read.

The functions of the list, `cds_list_add_rcu` and `cds_list_del_rcu`, are liburcu's and not part of
the repository. They are parameters here, given by the stores they make, each of which is one step;
what is assumed of them is `SharedList.ListOps.Correct`. The runs on fixed inputs are those with a
ring of links.
-/

namespace CppPlayground

namespace UrcuList

open Machine SharedList

/-! ## Data -/

/-- What the list is made of: `mylist` and the nodes, in the order in which they are made. -/
inductive Node
  | head
  | entry (i : ℕ)
  deriving DecidableEq, Repr

/-- Where `writer` is: how many nodes it has added, and how many stores it has made to add the
next. -/
structure WriterPc where
  added : ℕ
  stores : ℕ
  deriving DecidableEq, Repr

/-- Where `reader` is. -/
inductive ReaderPc
  /-- at `urcu_bp_read_lock`, before it goes to the first node -/
  | starting
  /-- at the test of `cds_list_for_each_entry_rcu` -/
  | testing (p : Node)
  /-- the value is printed, and so many stores are made to take the node out -/
  | deleting (i stores : ℕ)
  /-- the node is taken out, before `counter++` -/
  | deleted (i : ℕ)
  | finished
  deriving DecidableEq, Repr

/-- Where `main` is. -/
inductive MainPc
  | joining
  /-- at the test of `cds_list_for_each_entry_safe` with these `node` and `n` -/
  | testing (node n : Node)
  | ended
  deriving DecidableEq, Repr

structure State (M : Type*) where
  /-- the memory of the list -/
  memory : M
  writer : WriterPc
  reader : ReaderPc
  counter : ℕ
  main : MainPc
  /-- the nodes whose values were printed -/
  read : List ℕ
  /-- the nodes that `main` has freed -/
  freed : List Node

/-- Whose turn it is. -/
inductive Action
  | writer
  | reader
  | main
  deriving DecidableEq, Repr

/-! ## The program -/

def values : List ℕ := [42, 36, 24]

/-- `node->value`. -/
def value (i : ℕ) : ℕ := values.getD i 0

variable {M : Type*}

/-- What `reader` has printed. -/
def State.printed (s : State M) : List ℕ := s.read.map value

section Program

variable (ops : ListOps Node M)

/-- The list is `CDS_LIST_HEAD(mylist)`. -/
def init : State M where
  memory := ops.empty
  writer := ⟨0, 0⟩
  reader := .starting
  counter := 0
  main := .joining
  read := []
  freed := []

/-- Behind one more store of `cds_list_add_rcu`; the last one ends the call. -/
def WriterPc.stored (w : WriterPc) : WriterPc :=
  if w.stores + 1 < ops.add.length then ⟨w.added, w.stores + 1⟩ else ⟨w.added + 1, 0⟩

/-- `writer`, with `add_node` and the stores of `cds_list_add_rcu`. -/
def stepWriter (s : State M) : Option (State M) :=
  if s.writer.added < values.length then
    (ops.add[s.writer.stores]?).map fun store =>
      { s with memory := store s.memory (.entry s.writer.added), writer := s.writer.stored ops }
  else none

/-- `reader`, with the stores of `cds_list_del_rcu`. -/
def stepReader (s : State M) : Option (State M) :=
  match s.reader with
  | .starting => some { s with reader := .testing (ops.next s.memory .head) }
  | .testing .head =>
    some { s with reader := if 3 ≤ s.counter then .finished else .starting }
  | .testing (.entry i) => some { s with read := s.read ++ [i], reader := .deleting i 0 }
  | .deleting i stores =>
    (ops.remove[stores]?).map fun store =>
      { s with
        memory := store s.memory (.entry i)
        reader := if stores + 1 < ops.remove.length then .deleting i (stores + 1) else .deleted i }
  | .deleted i =>
    some { s with counter := s.counter + 1, reader := .testing (ops.next s.memory (.entry i)) }
  | .finished => none

/-- `main`; no other thread is left when it takes nodes out. -/
def stepMain (s : State M) : Option (State M) :=
  match s.main with
  | .joining =>
    if s.reader = .finished ∧ s.writer = ⟨values.length, 0⟩ then
      let node := ops.next s.memory .head
      some { s with main := .testing node (ops.next s.memory node) }
    else none
  | .testing .head _ => some { s with main := .ended }
  | .testing (.entry i) n =>
    let memory := perform ops.remove s.memory (.entry i)
    some { s with memory, freed := s.freed ++ [.entry i], main := .testing n (ops.next memory n) }
  | .ended => none

/-- One step of the program; `none` if it is not enabled. -/
def step (s : State M) : Action → Option (State M)
  | .writer => stepWriter ops s
  | .reader => stepReader ops s
  | .main => stepMain ops s

end Program

/-! ## Mutual exclusion -/

/-- The writer is between the stores of an add. -/
def WriterPc.inside (w : WriterPc) : Bool := w.stores ≠ 0

/-- The reader is about to take a node out. -/
def ReaderPc.begins : ReaderPc → Bool
  | .deleting _ stores => stores = 0
  | _ => false

/-- The reader is between the stores of a removal. -/
def ReaderPc.inside : ReaderPc → Bool
  | .deleting _ stores => stores ≠ 0
  | _ => false

/-- An update is begun only when the other thread is in none. -/
def Exclusive (s : State M) : Action → Prop
  | .writer => s.writer.inside = false → s.reader.inside = false
  | .reader => s.reader.begins = true → s.writer.inside = false
  | .main => True

instance decidableExclusive (s : State M) : ∀ a, Decidable (Exclusive s a)
  | .writer => inferInstanceAs (Decidable (_ → _))
  | .reader => inferInstanceAs (Decidable (_ → _))
  | .main => inferInstanceAs (Decidable True)

/-! ## The list in between

Behind a reader on its way there is what was added in the meantime, `news`; before it there is
`rest`. The memory is one that holds the list, `base`, and the stores made for an update. -/

section Between

variable (ops : ListOps Node M)

/-- The memory with the stores that the writer has made for its next node. -/
def WriterPc.memory (base : M) (w : WriterPc) : M :=
  perform (ops.add.take w.stores) base (.entry w.added)

/-- The memory with the stores that the reader has made to take a node out. -/
def ReaderPc.memory (base : M) : ReaderPc → M
  | .deleting i stores => perform (ops.remove.take stores) base (.entry i)
  | _ => base

/-- The nodes of the list when the reader is here. -/
def ReaderPc.nodes (news rest : List ℕ) : ReaderPc → List ℕ
  | .deleting i _ => news ++ i :: rest
  | _ => news ++ rest

/-- Where the reader is with respect to what it has before it. -/
def ReaderPc.Leads (base : M) (read rest : List ℕ) : ReaderPc → Prop
  | .testing p => p = first .head (rest.map .entry)
  | .deleting i _ => i ∈ read
  | .deleted i => i ∈ read ∧ ops.next base (.entry i) = first .head (rest.map .entry)
  | .starting | .finished => True

/-- The nodes that are read and not yet counted. -/
def ReaderPc.uncounted : ReaderPc → ℕ
  | .deleting _ _ | .deleted _ => 1
  | _ => 0

structure Inv (Holds : M → List Node → Prop) (base : M) (news rest : List ℕ) (s : State M) :
    Prop where
  holds : Holds base ((s.reader.nodes news rest).map .entry)
  memory : s.memory = s.writer.memory ops (s.reader.memory ops base)
  exclusive : s.reader.inside → s.writer.inside = false
  leads : s.reader.Leads ops base s.read rest
  perm : (s.read ++ (news ++ rest)).Perm (List.range s.writer.added)
  counted : s.counter + s.reader.uncounted = s.read.length
  writer_le : s.writer.added + s.writer.inside.toNat ≤ values.length
  stores : s.writer.stores = 0 ∨ s.writer.stores < ops.add.length
  enough : s.reader = .finished → 3 ≤ s.counter
  main : s.main = .joining ∨
    s.reader = .finished ∧ (s.main = .ended ∨ ∃ n, s.main = .testing .head n)
  freed : s.freed = []

end Between

variable {ops : ListOps Node M} {Holds : M → List Node → Prop} {base : M} {news rest : List ℕ}
  {s s' : State M} {a : Action}

theorem inv_init (hops : ops.Correct .head Holds) : Inv ops Holds ops.empty [] [] (init ops) where
  holds := hops.empty
  memory := rfl
  exclusive := fun h => by cases h
  leads := trivial
  perm := .refl _
  counted := rfl
  writer_le := Nat.zero_le _
  stores := .inl rfl
  enough := fun h => by cases h
  main := .inl rfl
  freed := rfl

theorem WriterPc.memory_of_outside {w : WriterPc} (h : w.inside = false) :
    w.memory ops base = base := by
  have hstores : w.stores = 0 := by simpa [WriterPc.inside] using h
  rw [WriterPc.memory, hstores, perform_take_zero]

theorem ReaderPc.memory_of_outside {r : ReaderPc} (h : r.inside = false) :
    r.memory ops base = base := by
  cases r with
  | deleting i stores =>
    have hstores : stores = 0 := by simpa [ReaderPc.inside] using h
    rw [ReaderPc.memory, hstores, perform_take_zero]
  | _ => rfl

theorem ReaderPc.nodes_cons {r : ReaderPc} {i : ℕ} :
    r.nodes (i :: news) rest = i :: r.nodes news rest := by
  cases r with
  | _ => rfl

/-- Every node of the list has been added. -/
theorem Inv.lt_added {i : ℕ} (h : Inv ops Holds base news rest s)
    (hi : i ∈ s.read ∨ i ∈ s.reader.nodes news rest) : i < s.writer.added := by
  rw [← List.mem_range, ← h.perm.mem_iff]
  have hleads := h.leads
  cases hr : s.reader with
  | deleting j stores => grind [ReaderPc.nodes, ReaderPc.Leads]
  | _ => grind [ReaderPc.nodes, ReaderPc.Leads]

/-- The writer's next node is not in the list. -/
theorem Inv.fresh (h : Inv ops Holds base news rest s) :
    Node.entry s.writer.added ∉ .head :: (s.reader.nodes news rest).map Node.entry := by
  intro hmem
  obtain ⟨j, hj, hji⟩ : ∃ j ∈ s.reader.nodes news rest, Node.entry j = .entry s.writer.added := by
    simpa using hmem
  cases hji
  exact Nat.lt_irrefl _ (h.lt_added (.inr hj))

/-- Nor is it one that the reader has read. -/
theorem Inv.ne_next {i : ℕ} (h : Inv ops Holds base news rest s) (hi : i ∈ s.read) :
    Node.entry i ≠ .entry s.writer.added := by
  intro heq
  cases heq
  exact Nat.lt_irrefl _ (h.lt_added (.inl hi))

/-! ## Steps of the writer -/

/-- A store that is not the last: the list stays as it is. -/
theorem Inv.store {store : M → Node → M} (h : Inv ops Holds base news rest s)
    (hstore : ops.add[s.writer.stores]? = some store)
    (hlt : s.writer.stores + 1 < ops.add.length) (hout : s.reader.inside = false)
    (hle : s.writer.added < values.length) :
    Inv ops Holds base news rest
      { s with
        memory := store s.memory (.entry s.writer.added)
        writer := ⟨s.writer.added, s.writer.stores + 1⟩ } := by
  constructor
  case holds => exact h.holds
  case memory =>
    dsimp only
    rw [h.memory, WriterPc.memory, WriterPc.memory, perform_take_succ hstore]
  case exclusive => simp [hout]
  case leads => exact h.leads
  case perm => exact h.perm
  case counted => exact h.counted
  case writer_le => exact Nat.le_trans (Nat.add_le_add_left (Bool.toNat_le _) _) hle
  case stores => exact .inr hlt
  case enough => exact h.enough
  case main => exact h.main
  case freed => exact h.freed

/-- The last store: the new node is at the front of the list. -/
theorem Inv.publish (hops : ops.Correct .head Holds) {store : M → Node → M}
    (h : Inv ops Holds base news rest s) (hstore : ops.add[s.writer.stores]? = some store)
    (hlast : ¬ s.writer.stores + 1 < ops.add.length) (hout : s.reader.inside = false)
    (hle : s.writer.added < values.length) :
    Inv ops Holds (perform ops.add base (.entry s.writer.added)) (s.writer.added :: news) rest
      { s with
        memory := store s.memory (.entry s.writer.added)
        writer := ⟨s.writer.added + 1, 0⟩ } := by
  constructor
  case holds =>
    rw [ReaderPc.nodes_cons, List.map_cons]
    exact hops.add h.holds h.fresh
  case memory =>
    dsimp only
    rw [h.memory, ReaderPc.memory_of_outside hout, ReaderPc.memory_of_outside hout,
      WriterPc.memory, ← perform_take_succ hstore, perform_take_of_last hlast]
    rfl
  case exclusive => exact fun _ => rfl
  case leads =>
    have hleads := h.leads
    dsimp only
    cases hr : s.reader <;> rw [hr] at hleads
    case deleted j =>
      obtain ⟨hj, hnext⟩ := hleads
      refine ⟨hj, ?_⟩
      rw [hops.next_add h.holds h.fresh (h.ne_next hj) (by simp), hnext]
    all_goals exact hleads
  case perm =>
    dsimp only
    rw [List.range_succ, List.cons_append]
    exact List.perm_middle.trans
      ((h.perm.cons s.writer.added).trans (List.perm_append_singleton s.writer.added _).symm)
  case counted => exact h.counted
  case writer_le => exact hle
  case stores => exact .inl rfl
  case enough => exact h.enough
  case main => exact h.main
  case freed => exact h.freed

theorem inv_writer (hops : ops.Correct .head Holds) (h : Inv ops Holds base news rest s)
    (hok : Exclusive s .writer) (hstep : stepWriter ops s = some s') :
    ∃ base news, Inv ops Holds base news rest s' := by
  -- at the first store by the condition, at the others by the invariant
  have hout : s.reader.inside = false := by
    cases hr : s.reader.inside with
    | false => rfl
    | true => exact hr ▸ hok (h.exclusive hr)
  rw [stepWriter] at hstep
  split at hstep
  case isFalse => cases hstep
  case isTrue hi =>
    obtain ⟨store, hstore, rfl⟩ := Option.map_eq_some_iff.mp hstep
    rw [WriterPc.stored]
    split
    case isTrue hlt => exact ⟨base, news, h.store hstore hlt hout hi⟩
    case isFalse hlast => exact ⟨_, _, h.publish hops hstore hlast hout hi⟩

/-! ## Steps of the reader -/

/-- What a step of the reader has to keep; the rest is as before. -/
theorem Inv.move {base' memory : M} {news' rest' read : List ℕ} {r : ReaderPc} {counter : ℕ}
    (h : Inv ops Holds base news rest s) (hne : s.reader ≠ .finished)
    (hholds : Holds base' ((r.nodes news' rest').map .entry))
    (hmemory : memory = s.writer.memory ops (r.memory ops base'))
    (hexcl : r.inside → s.writer.inside = false) (hleads : r.Leads ops base' read rest')
    (hperm : (read ++ (news' ++ rest')).Perm (List.range s.writer.added))
    (hcounted : counter + r.uncounted = read.length) (henough : r = .finished → 3 ≤ counter) :
    Inv ops Holds base' news' rest' { s with memory, reader := r, counter, read } := by
  refine ⟨hholds, hmemory, hexcl, hleads, hperm, hcounted, h.writer_le, h.stores, henough, ?_,
    h.freed⟩
  rcases h.main with hmain | ⟨hr, -⟩
  · exact .inl hmain
  · exact absurd hr hne

/-- What the invariant says when the reader is at a known place. -/
theorem Inv.of_reader {r : ReaderPc} (h : Inv ops Holds base news rest s) (hr : s.reader = r) :
    Holds base ((r.nodes news rest).map .entry) ∧
      s.memory = s.writer.memory ops (r.memory ops base) ∧ r.Leads ops base s.read rest ∧
        s.counter + r.uncounted = s.read.length := by
  subst hr
  exact ⟨h.holds, h.memory, h.leads, h.counted⟩

/-- The writer may be inside an add, but a link that the reader follows is not changed before the
end of the add. -/
theorem Inv.next_memory (hops : ops.Correct .head Holds) (h : Inv ops Holds base news rest s)
    (hout : s.reader.inside = false) {c : Node} (hc : c ≠ .entry s.writer.added) :
    ops.next s.memory c = ops.next base c := by
  rw [h.memory, ReaderPc.memory_of_outside hout, WriterPc.memory]
  rcases h.stores with hzero | hlt
  · rw [hzero, perform_take_zero]
  · exact hops.next_add_take h.holds h.fresh hc hlt

/-- The traversal begins: all of the list is before the reader. -/
theorem inv_starting (hops : ops.Correct .head Holds) (h : Inv ops Holds base news rest s)
    (hr : s.reader = .starting) :
    Inv ops Holds base [] (news ++ rest)
      { s with reader := .testing (ops.next s.memory .head) } := by
  obtain ⟨hholds, hmemory, -, hcounted⟩ := h.of_reader hr
  refine h.move (by simp [hr]) hholds hmemory nofun ?_ h.perm hcounted nofun
  show ops.next s.memory .head = _
  rw [h.next_memory hops (by rw [hr]; rfl) (by simp)]
  exact hops.next_head hholds

/-- The traversal ends at the head, for good if three nodes are counted. -/
theorem inv_ending (h : Inv ops Holds base news rest s) (hr : s.reader = .testing .head) :
    Inv ops Holds base news rest
      { s with reader := if 3 ≤ s.counter then .finished else .starting } := by
  obtain ⟨hholds, hmemory, -, hcounted⟩ := h.of_reader hr
  split
  case isTrue henough =>
    exact h.move (by simp [hr]) hholds hmemory nofun trivial h.perm hcounted fun _ => henough
  case isFalse =>
    exact h.move (by simp [hr]) hholds hmemory nofun trivial h.perm hcounted nofun

/-- The node at hand is the first of those before the reader. -/
theorem inv_reading {i : ℕ} (h : Inv ops Holds base news rest s)
    (hr : s.reader = .testing (.entry i)) :
    Inv ops Holds base news rest.tail
      { s with read := s.read ++ [i], reader := .deleting i 0 } := by
  obtain ⟨hholds, hmemory, hleads, hcounted⟩ := h.of_reader hr
  have hperm := h.perm
  cases rest with
  | nil => cases hleads
  | cons j rest =>
    obtain rfl : i = j := by simpa [ReaderPc.Leads] using hleads
    have hmove : (i :: (news ++ rest)).Perm (news ++ i :: rest) := List.perm_middle.symm
    refine h.move (by simp [hr]) hholds hmemory nofun (by simp [ReaderPc.Leads]) ?_ ?_ nofun
    · rw [List.append_assoc]
      exact (hmove.append_left s.read).trans hperm
    · simpa [ReaderPc.uncounted] using hcounted

/-- A store of a removal. The writer is in no add: at the first store by the condition, at the
others by the invariant. After the last store the node is out of the list and still leads on. -/
theorem inv_deleting (hops : ops.Correct .head Holds) {i stores : ℕ} {store : M → Node → M}
    (h : Inv ops Holds base news rest s) (hr : s.reader = .deleting i stores)
    (hok : Exclusive s .reader) (hstore : ops.remove[stores]? = some store) :
    ∃ base, Inv ops Holds base news rest
      { s with
        memory := store s.memory (.entry i)
        reader := if stores + 1 < ops.remove.length then .deleting i (stores + 1)
          else .deleted i } := by
  obtain ⟨hholds, hmemory, hleads, hcounted⟩ := h.of_reader hr
  have hout : s.writer.inside = false := by
    by_cases hzero : stores = 0
    · exact hok (by simp [hr, ReaderPc.begins, hzero])
    · exact h.exclusive (by simp [hr, ReaderPc.inside, hzero])
  have hnew : store s.memory (.entry i) =
      perform (ops.remove.take (stores + 1)) base (.entry i) := by
    rw [hmemory, WriterPc.memory_of_outside hout, perform_take_succ hstore]
    rfl
  split
  case isTrue =>
    refine ⟨base, h.move (by simp [hr]) hholds ?_ (fun _ => hout) hleads h.perm hcounted nofun⟩
    rw [WriterPc.memory_of_outside hout]
    exact hnew
  case isFalse hlast =>
    rw [perform_take_of_last hlast] at hnew
    simp only [ReaderPc.nodes, List.map_append, List.map_cons] at hholds
    refine ⟨perform ops.remove base (.entry i), h.move (by simp [hr]) ?_ ?_ nofun ⟨hleads, ?_⟩
      h.perm hcounted nofun⟩
    · simpa only [ReaderPc.nodes, List.map_append] using hops.remove hholds
    · rw [WriterPc.memory_of_outside hout]
      exact hnew
    · rw [hops.next_remove hholds]
      exact hops.next hholds

/-- The reader goes on from the node that it has taken out. -/
theorem inv_deleted (hops : ops.Correct .head Holds) {i : ℕ} (h : Inv ops Holds base news rest s)
    (hr : s.reader = .deleted i) :
    Inv ops Holds base news rest
      { s with counter := s.counter + 1, reader := .testing (ops.next s.memory (.entry i)) } := by
  obtain ⟨hholds, hmemory, hleads, hcounted⟩ := h.of_reader hr
  refine h.move (by simp [hr]) hholds hmemory nofun ?_ h.perm hcounted nofun
  obtain ⟨hi, hnext⟩ := hleads
  show ops.next s.memory (.entry i) = _
  rw [h.next_memory hops (by rw [hr]; rfl) (h.ne_next hi)]
  exact hnext

theorem inv_reader (hops : ops.Correct .head Holds) (h : Inv ops Holds base news rest s)
    (hok : Exclusive s .reader) (hstep : stepReader ops s = some s') :
    ∃ base news rest, Inv ops Holds base news rest s' := by
  simp only [stepReader] at hstep
  split at hstep
  case h_1 hr =>
    obtain rfl := Option.some.inj hstep
    exact ⟨_, _, _, inv_starting hops h hr⟩
  case h_2 hr =>
    obtain rfl := Option.some.inj hstep
    exact ⟨_, _, _, inv_ending h hr⟩
  case h_3 i hr =>
    obtain rfl := Option.some.inj hstep
    exact ⟨_, _, _, inv_reading h hr⟩
  case h_4 i stores hr =>
    obtain ⟨store, hstore, rfl⟩ := Option.map_eq_some_iff.mp hstep
    obtain ⟨base', h'⟩ := inv_deleting hops h hr hok hstore
    exact ⟨base', _, _, h'⟩
  case h_5 i hr =>
    obtain rfl := Option.some.inj hstep
    exact ⟨_, _, _, inv_deleted hops h hr⟩
  case h_6 => cases hstep

/-! ## The end -/

/-- The reader has counted three, so all is added and read. -/
theorem Inv.finished (h : Inv ops Holds base news rest s) (hr : s.reader = .finished) :
    s.writer = ⟨values.length, 0⟩ ∧ s.memory = base ∧ news ++ rest = [] := by
  obtain ⟨-, hmemory, -, hcounted⟩ := h.of_reader hr
  have henough := h.enough hr
  have hle := h.writer_le
  have hlength := h.perm.length_eq
  rw [List.length_append, List.length_range] at hlength
  have hthree : values.length = 3 := rfl
  simp only [ReaderPc.uncounted] at hcounted
  have hout : s.writer.inside = false := by
    rw [← Bool.toNat_eq_zero]
    omega
  have hstores : s.writer.stores = 0 := by simpa [WriterPc.inside] using hout
  have hadded : s.writer.added = values.length := by omega
  refine ⟨?_, ?_, List.eq_nil_of_length_eq_zero (by omega)⟩
  · rw [← hadded, ← hstores]
  · rw [hmemory, WriterPc.memory_of_outside hout]
    rfl

/-- The list is empty when the reader has finished. -/
theorem Inv.next_head (hops : ops.Correct .head Holds) (h : Inv ops Holds base news rest s)
    (hr : s.reader = .finished) : ops.next s.memory .head = .head := by
  obtain ⟨-, hmemory, hnil⟩ := h.finished hr
  obtain ⟨hholds, -⟩ := h.of_reader hr
  rw [hmemory, hops.next_head hholds]
  dsimp only [ReaderPc.nodes]
  rw [hnil]
  rfl

/-- `main` finds the list empty. -/
theorem inv_main (hops : ops.Correct .head Holds) (h : Inv ops Holds base news rest s)
    (hstep : stepMain ops s = some s') : Inv ops Holds base news rest s' := by
  simp only [stepMain] at hstep
  split at hstep
  case h_1 hm =>
    split at hstep
    case isFalse => cases hstep
    case isTrue hend =>
      obtain rfl := Option.some.inj hstep
      rw [h.next_head hops hend.1, h.next_head hops hend.1]
      exact { h with main := .inr ⟨hend.1, .inr ⟨_, rfl⟩⟩ }
  case h_2 n hm =>
    obtain rfl := Option.some.inj hstep
    rcases h.main with hmain | ⟨hr, -⟩
    · rw [hm] at hmain
      cases hmain
    · exact { h with main := .inr ⟨hr, .inl rfl⟩ }
  case h_3 i n hm =>
    rcases h.main with hmain | ⟨-, hmain | ⟨n', hmain⟩⟩ <;> rw [hm] at hmain <;> cases hmain
  case h_4 => cases hstep

theorem inv_step (hops : ops.Correct .head Holds)
    (h : ∃ base news rest, Inv ops Holds base news rest s) (hok : Exclusive s a)
    (hstep : step ops s a = some s') : ∃ base news rest, Inv ops Holds base news rest s' := by
  obtain ⟨base, news, rest, h⟩ := h
  cases a with
  | writer =>
    obtain ⟨base', news', h'⟩ := inv_writer hops h hok hstep
    exact ⟨base', news', rest, h'⟩
  | reader => exact inv_reader hops h hok hstep
  | main => exact ⟨base, news, rest, inv_main hops h hstep⟩

theorem run_inv (hops : ops.Correct .head Holds) {actions : List Action}
    (hok : Along (step ops) Exclusive (init ops) actions)
    (hrun : run (step ops) (init ops) actions = some s) :
    ∃ base news rest, Inv ops Holds base news rest s :=
  run_invariant_along (inv_step hops) ⟨_, _, _, inv_init hops⟩ hok hrun

/-- If updates never overlap, then no node is read twice or before it is added. When the reader has
finished, the writer has finished too, each value is read and the list is empty; so `main` frees
none of the nodes. So it is for any list that is as it should be. -/
theorem run_reader (hops : ops.Correct .head Holds) {actions : List Action}
    (hok : Along (step ops) Exclusive (init ops) actions)
    (hrun : run (step ops) (init ops) actions = some s) :
    s.read.Nodup ∧ (∀ i ∈ s.read, i < s.writer.added) ∧ s.freed = [] ∧
      (s.reader = .finished →
        s.writer = ⟨values.length, 0⟩ ∧ s.printed.Perm values ∧
          ops.next s.memory .head = .head) := by
  obtain ⟨base, news, rest, h⟩ := run_inv hops hok hrun
  have hnodup : (s.read ++ (news ++ rest)).Nodup := h.perm.nodup_iff.2 List.nodup_range
  refine ⟨hnodup.of_append_left, fun i hi => h.lt_added (.inl hi), h.freed, fun hr => ?_⟩
  obtain ⟨hw, -, hnil⟩ := h.finished hr
  have hperm := h.perm
  rw [hnil, List.append_nil, hw] at hperm
  exact ⟨hw, hperm.map value, h.next_head hops hr⟩

/-- The list is a ring of links. -/
def ring : ListOps Node (LinkedRing.Links Node) := LinkedRing.ringOps .head

/-- Each takes so many steps in its turn. -/
def inTurns (turns : List (ℕ × Action)) : List Action :=
  turns.flatMap fun turn => List.replicate turn.1 turn.2

/-- The second node is added when the reader stands on the first, and the third when the reader
has left it. -/
def threeNodes : List Action :=
  inTurns [(4, .writer), (2, .reader), (4, .writer), (3, .reader), (4, .writer), (11, .reader),
    (2, .main)]

theorem run_reader_threeNodes :
    ∃ s, run (step ring) (init ring) threeNodes = some s ∧ s.main = .ended ∧
      s.printed = [42, 24, 36] ∧ s.printed.Perm values ∧ s.freed = [] := by
  obtain ⟨s, hs, hmain, hreader, hprinted⟩ : ∃ s ∈ run (step ring) (init ring) threeNodes,
      s.main = .ended ∧ s.reader = .finished ∧ s.printed = [42, 24, 36] := by decide +kernel
  have hok : Along (step ring) Exclusive (init ring) threeNodes := by decide
  have h := run_reader (LinkedRing.ringOps_correct Node.head) hok hs
  exact ⟨s, hs, hmain, hprinted, (h.2.2.2 hreader).2.1, h.2.2.1⟩

/-- The first node is taken out between two stores of the add of the second. The new node then
leads to a node that is not in the list any more, which comes back and is read again. -/
example : ∃ s ∈ run (step ring) (init ring) (inTurns
      [(4, .writer), (2, .reader), (2, .writer), (4, .reader), (2, .writer), (10, .reader)]),
      s.reader = .finished ∧ s.printed = [42, 36, 42] := by decide +kernel

end UrcuList

end CppPlayground
