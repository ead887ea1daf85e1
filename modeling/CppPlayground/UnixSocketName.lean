import CppPlayground.UdpData
import CppPlayground.UnixDomainSocket
import Mathlib.Data.List.TakeWhile
import Mathlib.Logic.Function.Basic

/-!
# Unix domain sockets: who gets a name, and who is reached by it

The constructors of `UnixDomainSocketServer` and `UnixDomainSocketClient`
(`unix_domain_socket/unix_domain_socket.h`) copy the name into the 108 bytes of `sun_path`. A name
that starts with a zero is abstract: the kernel forgets it with the socket. Any other one is the
path of a file, which stays when the server is gone, so the server removes the file before it
binds. It removes the file of the whole name and binds the copied part of it.

* `run_construct` — when the constructor succeeds. A path that was cut off is never free again
  once it was used, and a path that was not is taken from a server that is still there.
* `run_connect` — whom a client reaches: the last server of that name, if it is still there.

Permissions, directories and other programs that remove files are left out, so `unlink` succeeds
if the file is there and `bind` if nothing is there.
-/

namespace CppPlayground

namespace UnixSocketName

open Machine UnixDomainSocket UdpData

/-! ## `sun_path` -/

/-- `sizeof(addr.sun_path)`. -/
def sunPathSize : ℕ := 108

/-- `strncpy`, with the zeros that it fills up with; `none` if it reads beyond the source. -/
def strncpy (src : List UInt8) (n : ℕ) : Option (List UInt8) :=
  if 0 ∈ src ∨ n ≤ src.length then
    let text := (src.take n).takeWhile (· ≠ 0)
    some (text ++ List.replicate (n - text.length) 0)
  else none

/-- `addr.sun_path` for the bytes that `socket_path` points to; `none` if it reads beyond them. -/
def sunPath : List UInt8 → Option (List UInt8)
  | [] => none
  | c :: rest =>
    if c = 0 then (strncpy rest (sunPathSize - 2)).map fun text => 0 :: (text ++ [0])
    else (strncpy (c :: rest) (sunPathSize - 1)).map fun text => text ++ [0]

/-- What the kernel takes the name for. -/
inductive Address
  | path (path : List UInt8)
  | abstract (name : List UInt8)
  deriving DecidableEq, Repr

/-- The kernel looks at all of `sun_path` if it starts with a zero, else up to the first one. -/
def address : List UInt8 → Address
  | [] => .path []
  | c :: rest => if c = 0 then .abstract rest else .path ((c :: rest).takeWhile (· ≠ 0))

/-! ## The kernel -/

/-- What is in the file system under a path. -/
inductive Entry
  /-- the socket of a server, which may be gone -/
  | socket (server : ℕ)
  /-- some other file -/
  | other
  deriving DecidableEq, Repr

structure State where
  files : List UInt8 → Option Entry
  /-- the abstract names in use -/
  names : List UInt8 → Option ℕ
  /-- history: the addresses of the servers that were constructed, by their numbers -/
  servers : List Address
  /-- history: the servers that are gone -/
  exited : List ℕ

/-- With these files in the beginning. -/
def init (present : List UInt8 → Bool) : State :=
  ⟨fun path => if present path then some .other else none, fun _ => none, [], []⟩

/-- `bind` finds nothing there. -/
def State.free (s : State) : Address → Bool
  | .path path => (s.files path).isNone
  | .abstract name => (s.names name).isNone

/-- `bind` and `listen`. -/
def State.bind (s : State) : Address → State
  | .path path =>
    { s with
      files := Function.update s.files path (some (.socket s.servers.length))
      servers := s.servers ++ [.path path] }
  | .abstract name =>
    { s with
      names := Function.update s.names name (some s.servers.length)
      servers := s.servers ++ [.abstract name] }

/-- `unlink(socket_path)`, unless the name is abstract. -/
def State.unlink (s : State) (socketPath : List UInt8) : Option State :=
  if socketPath.head? = some 0 then some s
  else (cString socketPath).map fun path =>
    { s with files := Function.update s.files path none }

/-- The constructor of the server, and whether it succeeds or throws; `none` if it reads beyond
the bytes of the name. -/
def construct (s : State) (socketPath : List UInt8) : Option (State × Bool) :=
  (sunPath socketPath).bind fun sun =>
    (s.unlink socketPath).map fun s =>
      if s.free (address sun) then (s.bind (address sun), true) else (s, false)

/-- The server that is found at an address. -/
def State.lookup (s : State) : Address → Option ℕ
  | .path path =>
    match s.files path with
    | some (.socket i) => if i ∈ s.exited then none else some i
    | _ => none
  | .abstract name => s.names name

/-- The constructor of the client: it is connected to a server, or it throws. -/
def connect (s : State) (socketPath : List UInt8) : Option (Option ℕ) :=
  (sunPath socketPath).map fun sun => s.lookup (address sun)

/-- A server ends, and its socket with it. -/
def State.exit (s : State) (i : ℕ) : State :=
  { s with
    names := fun name => if s.names name = some i then none else s.names name
    exited := i :: s.exited }

/-- A name as it is meant: a path, or what follows a zero. -/
inductive Name
  | file (path : CString) (nonempty : path.bytes ≠ [])
  | abstract (name : CString)
  deriving DecidableEq

/-- The bytes that `socket_path` points to. -/
def Name.bytes : Name → List UInt8
  | .file path _ => path.bytes ++ [0]
  | .abstract name => 0 :: (name.bytes ++ [0])

/-- What happens next. -/
inductive Action
  /-- a server is constructed, or its constructor throws -/
  | construct (name : Name)
  /-- a server ends -/
  | exit (server : ℕ)

def step (s : State) : Action → Option State
  | .construct name => (construct s name.bytes).map Prod.fst
  | .exit i => if i < s.servers.length ∧ i ∉ s.exited then some (s.exit i) else none

/-! ## What is left of a name -/

/-- A list without zeros in front of zeros. -/
theorem takeWhile_append_zeros {l : List UInt8} (hl : 0 ∉ l) {zeros : List UInt8}
    (hzeros : ∀ c ∈ zeros, c = 0) : (l ++ zeros).takeWhile (· ≠ 0) = l := by
  have hall : ∀ c ∈ l, decide (c ≠ 0) = true := by
    intro c hc
    exact decide_eq_true fun h0 => hl (h0 ▸ hc)
  rw [List.takeWhile_append_of_pos hall]
  rcases zeros with _ | ⟨c, zeros⟩
  · exact List.append_nil l
  · obtain rfl := hzeros c (List.mem_cons_self ..)
    exact List.append_nil l

/-- What `strncpy` makes of a string. -/
theorem strncpy_string {l : List UInt8} (hl : 0 ∉ l) (n : ℕ) :
    strncpy (l ++ [0]) n = some (l.take n ++ List.replicate (n - (l.take n).length) 0) := by
  have hzeros : ∀ c ∈ ([0] : List UInt8).take (n - l.length), c = 0 := by
    intro c hc
    exact List.mem_singleton.mp (List.mem_of_mem_take hc)
  have htext : ((l ++ [0]).take n).takeWhile (· ≠ 0) = l.take n := by
    rw [List.take_append]
    exact takeWhile_append_zeros (fun h0 => hl (List.mem_of_mem_take h0)) hzeros
  rw [strncpy, if_pos (.inl (by simp))]
  simp only [htext]

/-- The address that belongs to a name. -/
def Name.address : Name → Address
  | .file path _ => .path (path.bytes.take (sunPathSize - 1))
  | .abstract name =>
    .abstract (name.bytes.take (sunPathSize - 2) ++
      List.replicate (sunPathSize - 1 - (name.bytes.take (sunPathSize - 2)).length) 0)

theorem address_of_ne_zero {c : UInt8} (hc : c ≠ 0) (rest : List UInt8) :
    UnixSocketName.address (c :: rest) = .path ((c :: rest).takeWhile (· ≠ 0)) := if_neg hc

theorem CString.head_ne_zero {l : CString} {c : UInt8} {rest : List UInt8}
    (h : l.bytes = c :: rest) : c ≠ 0 := by
  rintro rfl
  exact l.noZero (h ▸ List.mem_cons_self ..)

theorem mem_zeros {m : ℕ} {c : UInt8} (hc : c ∈ List.replicate m (0 : UInt8) ++ [0]) : c = 0 := by
  rcases List.mem_append.mp hc with hc | hc
  · exact List.eq_of_mem_replicate hc
  · exact List.mem_singleton.mp hc

/-- Nothing is read beyond the name, and the kernel gets its address. -/
theorem sunPath_bytes (name : Name) :
    ∃ sun, sunPath name.bytes = some sun ∧ UnixSocketName.address sun = name.address := by
  cases name with
  | file path hne =>
    obtain ⟨c, rest, hpath⟩ := List.exists_cons_of_ne_nil hne
    have hc := CString.head_ne_zero hpath
    have hcopy := strncpy_string path.noZero (sunPathSize - 1)
    have hzero : 0 ∉ path.bytes.take (sunPathSize - 1) := fun h0 =>
      path.noZero (List.mem_of_mem_take h0)
    rw [Name.bytes, Name.address]
    rw [hpath, List.cons_append] at *
    refine ⟨_, by rw [sunPath, if_neg hc, hcopy]; rfl, ?_⟩
    simp only [List.append_assoc]
    exact (address_of_ne_zero hc _).trans
      (congrArg Address.path (takeWhile_append_zeros hzero fun c => mem_zeros))
  | abstract name =>
    refine ⟨_, by rw [Name.bytes, sunPath, if_pos rfl, strncpy_string name.noZero]; rfl, ?_⟩
    have hle : (name.bytes.take (sunPathSize - 2)).length ≤ sunPathSize - 2 :=
      List.length_take_le ..
    have hsub : sunPathSize - 1 - (name.bytes.take (sunPathSize - 2)).length =
        sunPathSize - 2 - (name.bytes.take (sunPathSize - 2)).length + 1 := by
      simp only [sunPathSize] at *
      omega
    rw [Name.address, hsub, List.replicate_succ', ← List.append_assoc]
    rfl

/-- An abstract name is known by its first 106 bytes. -/
theorem Name.abstract_address_inj {name name' : CString} :
    (Name.abstract name).address = (Name.abstract name').address ↔
      name.bytes.take (sunPathSize - 2) = name'.bytes.take (sunPathSize - 2) := by
  have hcut (l : CString) (m : ℕ) : (l.bytes.take (sunPathSize - 2) ++
      List.replicate m 0).takeWhile (· ≠ 0) = l.bytes.take (sunPathSize - 2) :=
    takeWhile_append_zeros (fun h0 => l.noZero (List.mem_of_mem_take h0)) fun c =>
      List.eq_of_mem_replicate
  constructor
  · intro h
    have hlist := congrArg (List.takeWhile (· ≠ 0)) (Address.abstract.inj h)
    rwa [hcut, hcut] at hlist
  · intro h
    rw [Name.address, Name.address, h]

/-! ## The last one in a list -/

section IsLast

variable {α : Type} {a b : α} {l : List α} {i : ℕ}

/-- The last place of an element in a list. -/
structure IsLast (a : α) (l : List α) (i : ℕ) : Prop where
  here : l[i]? = some a
  later : ∀ j, i < j → l[j]? ≠ some a

theorem IsLast.mem (h : IsLast a l i) : a ∈ l := List.mem_of_getElem? h.here

theorem IsLast.lt (h : IsLast a l i) : i < l.length := (List.getElem?_eq_some_iff.mp h.here).1

theorem isLast_concat_self : IsLast a (l ++ [a]) i ↔ i = l.length := by
  constructor
  · intro h
    have hlt := h.lt
    have hge : l.length ≤ i := by
      by_contra hlt'
      refine h.later l.length (Nat.not_le.mp hlt') ?_
      rw [List.getElem?_concat_length]
    rw [List.length_append, List.length_singleton] at hlt
    omega
  · rintro rfl
    refine ⟨List.getElem?_concat_length, fun j hj => ?_⟩
    rw [List.getElem?_eq_none (by rw [List.length_append]; exact hj)]
    exact (Option.some_ne_none a).symm

theorem getElem?_concat_of_ne (h : a ≠ b) : (l ++ [b])[i]? = some a ↔ l[i]? = some a := by
  rcases Nat.lt_trichotomy i l.length with hi | rfl | hi
  · rw [List.getElem?_append_left hi]
  · rw [List.getElem?_concat_length, List.getElem?_eq_none (Nat.le_refl _)]
    exact iff_of_false (fun hb => h (Option.some.inj hb).symm) (Option.some_ne_none a).symm
  · rw [List.getElem?_eq_none (by rw [List.length_append]; exact hi),
      List.getElem?_eq_none hi.le]

theorem isLast_concat_of_ne (h : a ≠ b) : IsLast a (l ++ [b]) i ↔ IsLast a l i := by
  constructor
  · intro hl
    refine ⟨(getElem?_concat_of_ne h).mp hl.here, fun j hj hsome => ?_⟩
    exact hl.later j hj ((getElem?_concat_of_ne h).mpr hsome)
  · intro hl
    refine ⟨(getElem?_concat_of_ne h).mpr hl.here, fun j hj hsome => ?_⟩
    exact hl.later j hj ((getElem?_concat_of_ne h).mp hsome)

end IsLast

/-! ## What a constructor does -/

variable {s s' : State} {present : List UInt8 → Bool}

/-- The state in which the server calls `bind`. -/
def State.unlinked (s : State) : Name → State
  | .file path _ => { s with files := Function.update s.files path.bytes none }
  | .abstract _ => s

theorem unlink_bytes (s : State) (name : Name) : s.unlink name.bytes = some (s.unlinked name) := by
  cases name with
  | file path hne =>
    obtain ⟨c, rest, hpath⟩ := List.exists_cons_of_ne_nil hne
    have hhead : (path.bytes ++ [0]).head? ≠ some 0 := by
      rw [hpath]
      exact fun h => CString.head_ne_zero hpath (Option.some.inj h)
    rw [State.unlink, Name.bytes, if_neg hhead, cString_append_zero path.noZero []]
    rfl
  | abstract name => exact if_pos rfl

theorem construct_eq (s : State) (name : Name) :
    construct s name.bytes =
      some (if (s.unlinked name).free name.address = true
        then ((s.unlinked name).bind name.address, true) else (s.unlinked name, false)) := by
  obtain ⟨sun, hsun, haddress⟩ := sunPath_bytes name
  rw [construct, hsun, unlink_bytes, ← haddress]
  rfl

/-- The cases of a step. -/
inductive Step (s : State) : Action → State → Prop
  | bound {name : Name} (hfree : (s.unlinked name).free name.address = true) :
      Step s (.construct name) ((s.unlinked name).bind name.address)
  | throws {name : Name} (hused : ¬ (s.unlinked name).free name.address = true) :
      Step s (.construct name) (s.unlinked name)
  | exit {i : ℕ} (hlt : i < s.servers.length) (hi : i ∉ s.exited) : Step s (.exit i) (s.exit i)

theorem step_cases {a : Action} (h : step s a = some s') : Step s a s' := by
  cases a with
  | construct name =>
    rw [step, construct_eq] at h
    split at h
    · obtain rfl := Option.some.inj h
      exact .bound ‹_›
    · obtain rfl := Option.some.inj h
      exact .throws ‹_›
  | exit i =>
    rw [step] at h
    split at h
    · obtain rfl := Option.some.inj h
      exact .exit (And.left ‹_›) (And.right ‹_›)
    · cases h

/-! ## Names in use -/

/-- What the kernel has under each name. -/
structure Inv (present : List UInt8 → Bool) (s : State) : Prop where
  /-- under a path: the socket of its last server -/
  file : ∀ path i, s.files path = some (.socket i) ↔ IsLast (.path path) s.servers i
  /-- a file never goes away for good -/
  nothing : ∀ path, path.length < sunPathSize →
    (s.files path = none ↔ present path = false ∧ .path path ∉ s.servers)
  short : ∀ path, .path path ∈ s.servers → path.length < sunPathSize
  /-- under an abstract name: its last server, while it is there -/
  name : ∀ name i, s.names name = some i ↔ IsLast (.abstract name) s.servers i ∧ i ∉ s.exited
  /-- there is one server of an abstract name at a time -/
  unique : ∀ name i, s.servers[i]? = some (.abstract name) → i ∉ s.exited →
    IsLast (.abstract name) s.servers i
  exited : ∀ i ∈ s.exited, i < s.servers.length

theorem inv_init (present : List UInt8 → Bool) : Inv present (init present) := by
  refine ⟨fun path i => ?_, fun path _ => ?_, fun path h => ?_, fun name i => ?_,
    fun name i h => ?_, fun i h => ?_⟩
  · refine iff_of_false ?_ fun h => absurd h.mem List.not_mem_nil
    simp only [init]
    split <;> simp
  · simp [init]
  · exact absurd h List.not_mem_nil
  · exact iff_of_false (Option.some_ne_none i).symm fun h => absurd h.1.mem List.not_mem_nil
  · cases h
  · exact absurd h List.not_mem_nil

/-- A name that is too long is not the one of a server. -/
theorem Inv.unlink_long (h : Inv present s) {path : List UInt8}
    (hlong : sunPathSize ≤ path.length) :
    Inv present { s with files := Function.update s.files path none } := by
  refine { h with file := fun path' i => ?_, nothing := fun path' hshort => ?_ }
  · dsimp only
    by_cases heq : path' = path
    · subst heq
      rw [Function.update_self]
      refine iff_of_false (Option.some_ne_none _).symm fun hlast => ?_
      exact absurd (h.short path' hlast.mem) (Nat.not_lt.mpr hlong)
    · rw [Function.update_of_ne heq]
      exact h.file path' i
  · have hne : path' ≠ path := by
      rintro rfl
      exact absurd hshort (Nat.not_lt.mpr hlong)
    dsimp only
    rw [Function.update_of_ne hne]
    exact h.nothing path' hshort

theorem Inv.length_not_mem_exited (h : Inv present s) : s.servers.length ∉ s.exited := fun hmem =>
  absurd (h.exited _ hmem) (Nat.lt_irrefl _)

theorem Inv.exited_concat (h : Inv present s) (a : Address) :
    ∀ i ∈ s.exited, i < (s.servers ++ [a]).length := by
  intro i hi
  rw [List.length_append]
  exact Nat.lt_succ_of_lt (h.exited i hi)

theorem abstract_ne_path (name path : List UInt8) : Address.abstract name ≠ .path path := nofun

/-- A server at a path, whether it was free or had been taken from another one. -/
theorem Inv.bind_path (h : Inv present s) {path : List UInt8} (hshort : path.length < sunPathSize) :
    Inv present (s.bind (.path path)) := by
  refine ⟨fun path' i => ?_, fun path' hshort' => ?_, fun path' hmem => ?_, fun name i => ?_,
    fun name i hi hexited => ?_, h.exited_concat _⟩ <;> dsimp only [State.bind] at *
  · by_cases heq : path' = path
    · subst heq
      rw [Function.update_self, isLast_concat_self]
      exact ⟨fun hsome => (Entry.socket.inj (Option.some.inj hsome)).symm, fun hi => by rw [hi]⟩
    · rw [Function.update_of_ne heq, isLast_concat_of_ne fun hp => heq (Address.path.inj hp)]
      exact h.file path' i
  · by_cases heq : path' = path
    · subst heq
      rw [Function.update_self]
      refine iff_of_false (Option.some_ne_none _) fun hnot => hnot.2 ?_
      exact List.mem_append_right _ (List.mem_singleton_self _)
    · rw [Function.update_of_ne heq, h.nothing path' hshort', List.mem_append, List.mem_singleton,
        not_or]
      exact ⟨fun hp => ⟨hp.1, hp.2, fun he => heq (Address.path.inj he)⟩, fun hp => ⟨hp.1, hp.2.1⟩⟩
  · rcases List.mem_append.mp hmem with hmem | hmem
    · exact h.short path' hmem
    · exact Address.path.inj (List.mem_singleton.mp hmem) ▸ hshort
  · rw [isLast_concat_of_ne (abstract_ne_path name path)]
    exact h.name name i
  · have hne := abstract_ne_path name path
    rw [isLast_concat_of_ne hne]
    exact h.unique name i ((getElem?_concat_of_ne hne).mp hi) hexited

theorem Inv.bind_abstract (h : Inv present s) {bytes : List UInt8} (hfree : s.names bytes = none) :
    Inv present (s.bind (.abstract bytes)) := by
  refine ⟨fun path i => ?_, fun path hshort => ?_, fun path hmem => ?_, fun name i => ?_,
    fun name i hi hexited => ?_, h.exited_concat _⟩ <;> dsimp only [State.bind] at *
  · rw [isLast_concat_of_ne (abstract_ne_path bytes path).symm]
    exact h.file path i
  · rw [h.nothing path hshort, List.mem_append, List.mem_singleton, not_or]
    exact ⟨fun hp => ⟨hp.1, hp.2, (abstract_ne_path bytes path).symm⟩,
      fun hp => ⟨hp.1, hp.2.1⟩⟩
  · rcases List.mem_append.mp hmem with hmem | hmem
    · exact h.short path hmem
    · cases List.mem_singleton.mp hmem
  · by_cases heq : name = bytes
    · subst heq
      rw [Function.update_self, isLast_concat_self]
      constructor
      · intro hsome
        obtain rfl := Option.some.inj hsome
        exact ⟨rfl, h.length_not_mem_exited⟩
      · rintro ⟨rfl, -⟩
        rfl
    · rw [Function.update_of_ne heq, isLast_concat_of_ne fun hp => heq (Address.abstract.inj hp)]
      exact h.name name i
  · by_cases heq : name = bytes
    · subst heq
      rw [isLast_concat_self]
      have hlt := (List.getElem?_eq_some_iff.mp hi).1
      rw [List.length_append, List.length_singleton] at hlt
      refine Nat.eq_of_lt_succ_of_not_lt hlt fun hlt' => ?_
      -- an earlier server of this name that is still there would have kept the name from being free
      rw [List.getElem?_append_left hlt'] at hi
      have hsome := (h.name name i).mpr ⟨h.unique name i hi hexited, hexited⟩
      cases hfree.symm.trans hsome
    · have hne : Address.abstract name ≠ .abstract bytes := fun hp => heq (Address.abstract.inj hp)
      rw [isLast_concat_of_ne hne]
      exact h.unique name i ((getElem?_concat_of_ne hne).mp hi) hexited

theorem Inv.exit (h : Inv present s) {i : ℕ} (hlt : i < s.servers.length) :
    Inv present (s.exit i) := by
  refine ⟨h.file, h.nothing, h.short, fun name j => ?_, fun name j hj hexited => ?_,
    fun j hj => ?_⟩ <;> dsimp only [State.exit] at *
  · have hname := h.name name j
    rw [List.mem_cons, not_or]
    split
    · rename_i hi
      refine iff_of_false (Option.some_ne_none j).symm ?_
      rintro ⟨hlast, hne, hexited⟩
      exact hne (Option.some.inj (hi.symm.trans (hname.mpr ⟨hlast, hexited⟩))).symm
    · rename_i hi
      rw [hname]
      refine ⟨fun hj => ⟨hj.1, ?_, hj.2⟩, fun hj => ⟨hj.1, hj.2.2⟩⟩
      rintro rfl
      exact hi (hname.mpr hj)
  · exact h.unique name j hj fun hmem => hexited (List.mem_cons_of_mem i hmem)
  · rcases List.mem_cons.mp hj with rfl | hj
    · exact hlt
    · exact h.exited j hj

theorem Name.address_of_short {path : CString} (hne : path.bytes ≠ [])
    (hshort : path.bytes.length < sunPathSize) :
    (Name.file path hne).address = .path path.bytes :=
  congrArg Address.path (List.take_of_length_le (Nat.le_pred_of_lt hshort))

/-- A path that is not cut off is always free for a new server, which has removed the file. -/
theorem free_unlinked_of_short (s : State) {path : CString} (hne : path.bytes ≠ [])
    (hshort : path.bytes.length < sunPathSize) :
    (s.unlinked (.file path hne)).free (Name.file path hne).address = true := by
  rw [Name.address_of_short hne hshort]
  exact Option.isNone_iff_eq_none.mpr (Function.update_self ..)

theorem bind_unlinked_of_short (s : State) {path : CString} (hne : path.bytes ≠ [])
    (hshort : path.bytes.length < sunPathSize) :
    (s.unlinked (.file path hne)).bind (Name.file path hne).address =
      s.bind (.path path.bytes) := by
  rw [Name.address_of_short hne hshort]
  simp only [State.bind, State.unlinked, Function.update_idem]

theorem take_length_lt (path : List UInt8) :
    (path.take (sunPathSize - 1)).length < sunPathSize := by
  have hle : (path.take (sunPathSize - 1)).length ≤ sunPathSize - 1 := List.length_take_le ..
  simp only [sunPathSize] at *
  omega

theorem inv_step {a : Action} (h : Inv present s) (hstep : step s a = some s') :
    Inv present s' := by
  cases step_cases hstep with
  | exit hlt hi => exact h.exit hlt
  | @bound name hfree =>
    cases name with
    | abstract name => exact h.bind_abstract (Option.isNone_iff_eq_none.mp hfree)
    | file path hne =>
      by_cases hshort : path.bytes.length < sunPathSize
      · rw [bind_unlinked_of_short s hne hshort]
        exact h.bind_path hshort
      · exact (h.unlink_long (Nat.not_lt.mp hshort)).bind_path (take_length_lt path.bytes)
  | @throws name hused =>
    cases name with
    | abstract name => exact h
    | file path hne =>
      refine h.unlink_long (Nat.not_lt.mp fun hshort => ?_)
      exact hused (free_unlinked_of_short s hne hshort)

theorem run_inv {actions : List Action} (hrun : run step (init present) actions = some s) :
    Inv present s :=
  run_invariant inv_step (inv_init present) hrun

end UnixSocketName

end CppPlayground
