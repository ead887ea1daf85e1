import CppPlayground.Machine
import CppPlayground.Room
import Mathlib.Tactic.SplitIfs

/-!
# The TCP chat server

The select loop of `tcp_socket/server.c`. The set `master` holds the listening socket and
the clients. In each round `select` leaves in the copy `reads` those that are ready, and
the loop goes through `reads` by number: the listening socket is accepted from, the others
are read from. What a client sends goes to all the others in `master`.

During a pass `master` and `max_socket` change while `reads` stays as it was. A number in
`reads` that the loop has not come to yet is still a member of `master` all the same
(`Pc.Current`): the loop closes no descriptor but the one it is at.

Two stores of the loop may go outside of their arrays.

* `FD_SET(socket_client, &master)` is undefined for descriptors from `FD_SETSIZE` on.
* `read[bytes_received] = '\0'` writes behind the buffer if `recv` has filled it.

After such a store the state is `undefined` and nothing is known any more. Up to there the
server is a `Room` in which everything is passed on (`relaying_of_defined`), and an answer
within the bounds does not lead there (`relaying_run`).
-/

namespace CppPlayground

namespace ChatServer

universe u

open Room (Event members members_concat Served Telling)

/-! ## Data -/

/-- `FD_SETSIZE`. -/
def fdSetSize : ℕ := 1024

/-- `sizeof(read)`. -/
def bufferSize : ℕ := 1024

/-- Where the server is. `i` is the counter of the pass and `reads` its set. -/
inductive Pc (B : Type u) : Type u
  /-- `select(..)` -/
  | select
  /-- the outer loop at `i` -/
  | scan (i : ℕ) (reads : Finset ℕ)
  /-- `accept(..)` -/
  | accept (i : ℕ) (reads : Finset ℕ)
  /-- `recv(i, ..)` -/
  | recv (i : ℕ) (reads : Finset ℕ)
  /-- the inner loop at `j` -/
  | relay (i : ℕ) (reads : Finset ℕ) (j : ℕ) (chunk : List B)
  /-- `exit(1)` -/
  | exited
  /-- after a store outside of an array -/
  | undefined
  deriving DecidableEq

/-- The variables of the loop, and the history. -/
structure State (B : Type u) : Type u where
  master : Finset ℕ
  maxSocket : ℕ
  pc : Pc B
  /-- history: clients accepted and closed, chunks received and sent -/
  trace : List (Event ℕ (List B))
  deriving DecidableEq

/-- What may happen next. -/
inductive Action (B : Type u) : Type u
  /-- `select` leaves these descriptors in `reads` -/
  | selectReturns (ready : Finset ℕ)
  | selectFails
  | acceptReturns (fd : ℕ)
  | acceptFails
  /-- `recv` returns these bytes, or a number below 1 -/
  | recvReturns (chunk : Option (List B))
  /-- any other step -/
  | tick
  deriving DecidableEq

variable {B : Type u}

/-! ## The loop -/

/-- The state before the first `select`. -/
def init (socketListen : ℕ) : State B where
  master := {socketListen}
  maxSocket := socketListen
  -- `FD_SET(socket_listen, &master)`
  pc := if socketListen < fdSetSize then .select else .undefined
  trace := []

/-- The descriptors the process has open, apart from the standard streams. -/
def opened (socketListen : ℕ) (s : State B) : Finset ℕ :=
  insert socketListen (members s.trace)

/-- The next step that needs no answer from outside. The outcome of `send` is left out, as the
loop does not look at it: `sent` says that the call is made, not that the bytes arrive. Left
out with it is `SIGPIPE`, which would end the process if the other end is closed already. -/
def tick (socketListen : ℕ) (s : State B) : Option (State B) :=
  match s.pc with
  | .scan i reads =>
    if i ≤ s.maxSocket then
      if i ∈ reads then
        if i = socketListen then some { s with pc := .accept i reads }
        else some { s with pc := .recv i reads }
      else some { s with pc := .scan (i + 1) reads }
    else some { s with pc := .select }
  | .relay i reads j chunk =>
    if j ≤ s.maxSocket then
      if j ∈ s.master then
        if j = socketListen ∨ j = i then some { s with pc := .relay i reads (j + 1) chunk }
        else some { s with
          pc := .relay i reads (j + 1) chunk
          trace := s.trace ++ [.sent j chunk] }
      else some { s with pc := .relay i reads (j + 1) chunk }
    else
      -- `read[bytes_received] = '\0'`
      if chunk.length < bufferSize then some { s with pc := .scan (i + 1) reads }
      else some { s with pc := .undefined }
  | _ => none

/-- One step of the server; `none` if the action is not enabled. -/
def step (socketListen : ℕ) (s : State B) : Action B → Option (State B)
  | .selectReturns ready =>
    match s.pc with
    | .select => if ready ⊆ s.master then some { s with pc := .scan 1 ready } else none
    | _ => none
  | .selectFails =>
    match s.pc with
    | .select => some { s with pc := .exited }
    | _ => none
  | .acceptReturns fd =>
    match s.pc with
    | .accept i reads =>
      if 3 ≤ fd ∧ fd ∉ opened socketListen s then
        -- `FD_SET(socket_client, &master)`
        if fd < fdSetSize then some { s with
          master := insert fd s.master
          maxSocket := if fd > s.maxSocket then fd else s.maxSocket
          pc := .scan (i + 1) reads
          trace := s.trace ++ [.joined fd] }
        else some { s with pc := .undefined, trace := s.trace ++ [.joined fd] }
      else none
    | _ => none
  | .acceptFails =>
    match s.pc with
    | .accept _ _ => some { s with pc := .exited }
    | _ => none
  | .recvReturns none =>
    match s.pc with
    | .recv i reads => some { s with
        master := s.master.erase i
        pc := .scan (i + 1) reads
        trace := s.trace ++ [.left i] }
    | _ => none
  | .recvReturns (some chunk) =>
    match s.pc with
    | .recv i reads =>
      if 0 < chunk.length ∧ chunk.length ≤ bufferSize then some { s with
        pc := .relay i reads 1 chunk
        trace := s.trace ++ [.said i chunk] }
      else none
    | _ => none
  | .tick => tick socketListen s

/-! ## What a step can do -/

/-- The transitions of the server, one constructor per outcome. -/
inductive Trans (socketListen : ℕ) (s : State B) : Action B → State B → Prop
  | selectReturns {ready : Finset ℕ} (hpc : s.pc = .select) (hready : ready ⊆ s.master) :
      Trans socketListen s (.selectReturns ready) { s with pc := .scan 1 ready }
  | selectFails (hpc : s.pc = .select) : Trans socketListen s .selectFails
      { s with pc := .exited }
  | accepted {i fd : ℕ} {reads : Finset ℕ} (hpc : s.pc = .accept i reads) (hfd : 3 ≤ fd)
      (hnew : fd ∉ opened socketListen s) (hsize : fd < fdSetSize) :
      Trans socketListen s (.acceptReturns fd) { s with
        master := insert fd s.master
        maxSocket := if fd > s.maxSocket then fd else s.maxSocket
        pc := .scan (i + 1) reads
        trace := s.trace ++ [.joined fd] }
  | acceptedHigh {i fd : ℕ} {reads : Finset ℕ} (hpc : s.pc = .accept i reads)
      (hsize : ¬ fd < fdSetSize) : Trans socketListen s (.acceptReturns fd)
        { s with pc := .undefined, trace := s.trace ++ [.joined fd] }
  | acceptFails {i : ℕ} {reads : Finset ℕ} (hpc : s.pc = .accept i reads) :
      Trans socketListen s .acceptFails { s with pc := .exited }
  | closed {i : ℕ} {reads : Finset ℕ} (hpc : s.pc = .recv i reads) :
      Trans socketListen s (.recvReturns none) { s with
        master := s.master.erase i
        pc := .scan (i + 1) reads
        trace := s.trace ++ [.left i] }
  | received {i : ℕ} {reads : Finset ℕ} {chunk : List B} (hpc : s.pc = .recv i reads) :
      Trans socketListen s (.recvReturns (some chunk))
        { s with pc := .relay i reads 1 chunk, trace := s.trace ++ [.said i chunk] }
  | toAccept {i : ℕ} {reads : Finset ℕ} (hpc : s.pc = .scan i reads)
      (hlisten : i = socketListen) :
      Trans socketListen s .tick { s with pc := .accept i reads }
  | toRecv {i : ℕ} {reads : Finset ℕ} (hpc : s.pc = .scan i reads) (hi : i ∈ reads)
      (hclient : i ≠ socketListen) : Trans socketListen s .tick { s with pc := .recv i reads }
  | scanNext {i : ℕ} {reads : Finset ℕ} (hpc : s.pc = .scan i reads) :
      Trans socketListen s .tick { s with pc := .scan (i + 1) reads }
  | scanDone {i : ℕ} {reads : Finset ℕ} (hpc : s.pc = .scan i reads) :
      Trans socketListen s .tick { s with pc := .select }
  | relayTo {i j : ℕ} {reads : Finset ℕ} {chunk : List B}
      (hpc : s.pc = .relay i reads j chunk) (hj : j ∈ s.master) (hclient : j ≠ socketListen)
      (hother : j ≠ i) : Trans socketListen s .tick
        { s with pc := .relay i reads (j + 1) chunk, trace := s.trace ++ [.sent j chunk] }
  | relayNext {i j : ℕ} {reads : Finset ℕ} {chunk : List B}
      (hpc : s.pc = .relay i reads j chunk)
      (hskip : j ∈ s.master → j = socketListen ∨ j = i) :
      Trans socketListen s .tick { s with pc := .relay i reads (j + 1) chunk }
  | relayDone {i j : ℕ} {reads : Finset ℕ} {chunk : List B}
      (hpc : s.pc = .relay i reads j chunk) (hj : s.maxSocket < j) :
      Trans socketListen s .tick { s with pc := .scan (i + 1) reads }
  | relayOver {i j : ℕ} {reads : Finset ℕ} {chunk : List B}
      (hpc : s.pc = .relay i reads j chunk) (hfull : ¬ chunk.length < bufferSize) :
      Trans socketListen s .tick { s with pc := .undefined }

variable {socketListen : ℕ} {s s' : State B} {a : Action B}

theorem tick_trans (h : tick socketListen s = some s') : Trans socketListen s .tick s' := by
  unfold tick at h
  split at h
  case h_1 hpc =>
    split_ifs at h with hmax hi hlisten <;> cases h
    · exact .toAccept hpc hlisten
    · exact .toRecv hpc hi hlisten
    · exact .scanNext hpc
    · exact .scanDone hpc
  case h_2 hpc =>
    split_ifs at h with hmax hj hskip hsize <;> cases h
    · exact .relayNext hpc fun _ => hskip
    · exact .relayTo hpc hj (fun hl => hskip (.inl hl)) fun hi => hskip (.inr hi)
    · exact .relayNext hpc fun hj' => absurd hj' hj
    · exact .relayDone hpc (by omega)
    · exact .relayOver hpc hsize
  case h_3 => cases h

theorem step_trans (h : step socketListen s a = some s') : Trans socketListen s a s' := by
  cases a with
  | selectReturns ready =>
    simp only [step] at h
    split at h
    case h_1 hpc =>
      split at h <;> cases h
      next hready => exact .selectReturns hpc hready
    case h_2 => cases h
  | selectFails =>
    simp only [step] at h
    split at h <;> cases h
    next hpc => exact .selectFails hpc
  | acceptReturns fd =>
    simp only [step] at h
    split at h
    case h_1 hpc =>
      split at h
      case isTrue hfd =>
        split at h <;> cases h
        next hsize => exact .accepted hpc hfd.1 hfd.2 hsize
        next hsize => exact .acceptedHigh hpc hsize
      case isFalse => cases h
    case h_2 => cases h
  | acceptFails =>
    simp only [step] at h
    split at h <;> cases h
    next hpc => exact .acceptFails hpc
  | recvReturns chunk =>
    cases chunk with
    | none =>
      simp only [step] at h
      split at h <;> cases h
      next hpc => exact .closed hpc
    | some chunk =>
      simp only [step] at h
      split at h
      case h_1 hpc =>
        split at h <;> cases h
        exact .received hpc
      case h_2 => cases h
  | tick => exact tick_trans h

/-! ## The property -/

/-- Every chunk was sent to the other clients; while the inner loop is at `j` the last one
has been sent to those below `j`. -/
def Serves (s : State B) : Prop :=
  match s.pc with
  | .relay i _ j chunk => Telling s.trace i chunk (· < j)
  | _ => Served s.trace

/-- **What the server should keep.** -/
structure Relaying (socketListen : ℕ) (s : State B) : Prop where
  /-- `master` is the listening socket and the clients -/
  master : s.master = insert socketListen (members s.trace)
  /-- the listening socket is no client -/
  listener : socketListen ∉ members s.trace
  /-- `max_socket` is at least every member of `master` -/
  max : ∀ fd ∈ s.master, fd ≤ s.maxSocket
  /-- every chunk goes to all the others, and to nobody else -/
  serves : Serves s

/-- The stores stay within their arrays: no descriptor is too high for an `fd_set`, and no
chunk fills the buffer. -/
def InBounds : Action B → Prop
  | .acceptReturns fd => fd < fdSetSize
  | .recvReturns (some chunk) => chunk.length < bufferSize
  | _ => True

/-! ## The invariant -/

/-- The numbers in `reads` that the outer loop has still to come to are in `master`, and the
one it is reading from is a client. -/
def Pc.Current (master clients : Finset ℕ) : Pc B → Prop
  | scan i reads => ∀ k ∈ reads, i ≤ k → k ∈ master
  | accept i reads => ∀ k ∈ reads, i < k → k ∈ master
  | recv i reads | relay i reads _ _ => i ∈ clients ∧ ∀ k ∈ reads, i < k → k ∈ master
  | select | exited | undefined => True

/-- The property together with what is needed to keep it. -/
structure Inv (socketListen : ℕ) (s : State B) : Prop extends Relaying socketListen s where
  /-- clients have no number that the loops leave out -/
  low : ∀ fd ∈ members s.trace, 1 ≤ fd
  /-- the pass over `reads` is up to date -/
  current : s.pc.Current s.master (members s.trace)

theorem inv_init (socketListen : ℕ) : Inv socketListen (init socketListen : State B) := by
  refine ⟨⟨rfl, nofun, by simp [init], ?_⟩, nofun, ?_⟩
  · rw [Serves, init]
    split_ifs <;> exact Served.nil
  · rw [init]
    split_ifs <;> trivial

namespace Inv

/-- Outside the inner loop everything has been passed on. -/
theorem served (hs : Inv socketListen s)
    (hpc : ∀ i reads j chunk, s.pc ≠ .relay i reads j chunk) : Served s.trace := by
  have hserves := hs.serves
  unfold Serves at hserves
  split at hserves
  case h_1 hrelay => exact absurd hrelay (hpc _ _ _ _)
  case h_2 => exact hserves

theorem telling (hs : Inv socketListen s) {i j : ℕ} {reads : Finset ℕ} {chunk : List B}
    (hpc : s.pc = .relay i reads j chunk) : Telling s.trace i chunk (· < j) := by
  simpa only [Serves, hpc] using hs.serves

/-- A step that only moves the server. -/
theorem move (hs : Inv socketListen s) {pc : Pc B} (hserves : Serves { s with pc := pc })
    (hcur : pc.Current s.master (members s.trace)) : Inv socketListen { s with pc := pc } :=
  ⟨⟨hs.master, hs.listener, hs.max, hserves⟩, hs.low, hcur⟩

/-- A member of `master` other than the listening socket is a client. -/
theorem mem_members (hs : Inv socketListen s) {fd : ℕ} (hfd : fd ∈ s.master)
    (hne : fd ≠ socketListen) : fd ∈ members s.trace := by
  rw [hs.master] at hfd
  exact (Finset.mem_insert.mp hfd).resolve_left hne

theorem mem_master (hs : Inv socketListen s) {fd : ℕ} (hfd : fd ∈ members s.trace) :
    fd ∈ s.master := by
  rw [hs.master]
  exact Finset.mem_insert_of_mem hfd

end Inv

/-- A new client. Its number may be one that was closed earlier in the same pass. -/
theorem Inv.accepted (hs : Inv socketListen s) {i fd : ℕ} {reads : Finset ℕ}
    (hpc : s.pc = .accept i reads) (hfd : 3 ≤ fd) (hnew : fd ∉ opened socketListen s) :
    Inv socketListen { s with
      master := insert fd s.master
      maxSocket := if fd > s.maxSocket then fd else s.maxSocket
      pc := .scan (i + 1) reads
      trace := s.trace ++ [.joined fd] } := by
  have hcur := hs.current
  rw [hpc] at hcur
  have hne : fd ≠ socketListen := fun h => hnew (h ▸ Finset.mem_insert_self ..)
  refine ⟨⟨?_, ?_, fun k hk => ?_, .joined (hs.served (by simp [hpc])) fd⟩, ?_, ?_⟩
  · rw [members_concat, Event.apply, hs.master, Finset.insert_comm]
  · rw [members_concat, Event.apply, Finset.mem_insert]
    exact fun h => h.elim (fun h => hne h.symm) hs.listener
  · have hle : k ≤ s.maxSocket ∨ k = fd :=
      (Finset.mem_insert.mp hk).symm.imp_left (hs.max k)
    dsimp only
    split <;> omega
  · rw [members_concat, Event.apply]
    intro k hk
    rcases Finset.mem_insert.mp hk with rfl | hk
    · omega
    · exact hs.low k hk
  · exact fun k hk hik => Finset.mem_insert_of_mem (hcur k hk hik)

/-- A client closes its connection. The rest of the pass does not come back to it. -/
theorem Inv.closed (hs : Inv socketListen s) {i : ℕ} {reads : Finset ℕ}
    (hpc : s.pc = .recv i reads) :
    Inv socketListen { s with
      master := s.master.erase i
      pc := .scan (i + 1) reads
      trace := s.trace ++ [.left i] } := by
  obtain ⟨hclient, hcur⟩ : i ∈ members s.trace ∧ ∀ k ∈ reads, i < k → k ∈ s.master := by
    simpa only [Pc.Current, hpc] using hs.current
  have hne : socketListen ≠ i := fun h => hs.listener (h ▸ hclient)
  refine ⟨⟨?_, ?_, fun k hk => ?_, .left (hs.served (by simp [hpc])) i⟩, ?_, ?_⟩
  · rw [members_concat, Event.apply, hs.master, Finset.erase_insert_of_ne hne]
  · rw [members_concat, Event.apply]
    exact fun h => hs.listener (Finset.mem_of_mem_erase h)
  · exact hs.max k (Finset.mem_of_mem_erase hk)
  · rw [members_concat, Event.apply]
    exact fun k hk => hs.low k (Finset.mem_of_mem_erase hk)
  · intro k hk hik
    exact Finset.mem_erase.mpr ⟨by omega, hcur k hk hik⟩

/-- A chunk arrives. -/
theorem Inv.received (hs : Inv socketListen s) {i : ℕ} {reads : Finset ℕ} {chunk : List B}
    (hpc : s.pc = .recv i reads) : Inv socketListen
      { s with pc := .relay i reads 1 chunk, trace := s.trace ++ [.said i chunk] } := by
  obtain ⟨hclient, hcur⟩ : i ∈ members s.trace ∧ ∀ k ∈ reads, i < k → k ∈ s.master := by
    simpa only [Pc.Current, hpc] using hs.current
  have hmembers : members (s.trace ++ [.said i chunk]) = members s.trace := by
    rw [members_concat, Event.apply]
  have htelling : Telling (s.trace ++ [.said i chunk]) i chunk (· < 1) := by
    have hnobody : Telling (s.trace ++ [.said i chunk]) i chunk fun _ => False :=
      .start (hs.served (by simp [hpc])) hclient fun _ => id
    refine hnobody.congr fun q hq _ => ?_
    rw [hmembers] at hq
    have hlow := hs.low q hq
    exact ⟨fun hlt => by omega, False.elim⟩
  refine ⟨⟨?_, ?_, hs.max, htelling⟩, ?_, ?_⟩
  all_goals rw [hmembers]
  · exact hs.master
  · exact hs.listener
  · exact hs.low
  · exact ⟨hclient, hcur⟩

/-- The inner loop sends to `j`. -/
theorem Inv.relayTo (hs : Inv socketListen s) {i j : ℕ} {reads : Finset ℕ} {chunk : List B}
    (hpc : s.pc = .relay i reads j chunk) (hj : j ∈ s.master) (hclient : j ≠ socketListen)
    (hother : j ≠ i) : Inv socketListen
      { s with pc := .relay i reads (j + 1) chunk, trace := s.trace ++ [.sent j chunk] } := by
  have hmembers : members (s.trace ++ [.sent j chunk]) = members s.trace := by
    rw [members_concat, Event.apply]
  have htelling : Telling (s.trace ++ [.sent j chunk]) i chunk (· < j + 1) :=
    (hs.telling hpc).send (hs.mem_members hj hclient) hother (Nat.lt_irrefl j) fun r => by omega
  refine ⟨⟨?_, ?_, hs.max, htelling⟩, ?_, ?_⟩
  all_goals rw [hmembers]
  · exact hs.master
  · exact hs.listener
  · exact hs.low
  · simpa only [Pc.Current, hpc] using hs.current

/-- The inner loop leaves `j` out. -/
theorem Inv.relayNext (hs : Inv socketListen s) {i j : ℕ} {reads : Finset ℕ} {chunk : List B}
    (hpc : s.pc = .relay i reads j chunk) (hskip : j ∈ s.master → j = socketListen ∨ j = i) :
    Inv socketListen { s with pc := .relay i reads (j + 1) chunk } := by
  have htelling : Telling s.trace i chunk (· < j + 1) := by
    refine (hs.telling hpc).congr fun q hq hne => ?_
    have hqj : q ≠ j := by
      rintro rfl
      rcases hskip (hs.mem_master hq) with rfl | rfl
      · exact hs.listener hq
      · exact hne rfl
    omega
  exact hs.move htelling (by simpa only [Pc.Current, hpc] using hs.current)

theorem inv_step (hs : Inv socketListen s) (h : step socketListen s a = some s')
    (hdef : s'.pc ≠ .undefined) : Inv socketListen s' := by
  have hcur := hs.current
  cases step_trans h with
  | selectReturns hpc hready =>
    exact hs.move (hs.served (by simp [hpc])) fun k hk _ => hready hk
  | selectFails hpc | acceptFails hpc | scanDone hpc =>
    exact hs.move (hs.served (by simp [hpc])) trivial
  | accepted hpc hfd hnew => exact hs.accepted hpc hfd hnew
  | acceptedHigh | relayOver => exact absurd rfl hdef
  | closed hpc => exact hs.closed hpc
  | received hpc => exact hs.received hpc
  | toAccept hpc =>
    rw [hpc] at hcur
    exact hs.move (hs.served (by simp [hpc])) fun k hk hik => hcur k hk hik.le
  | toRecv hpc hi hclient =>
    rw [hpc] at hcur
    refine hs.move (hs.served (by simp [hpc])) ⟨?_, fun k hk hik => hcur k hk hik.le⟩
    exact hs.mem_members (hcur _ hi (Nat.le_refl _)) hclient
  | scanNext hpc =>
    rw [hpc] at hcur
    refine hs.move (hs.served (by simp [hpc])) fun k hk hik => ?_
    exact hcur k hk (Nat.le_of_succ_le hik)
  | relayTo hpc hj hclient hother => exact hs.relayTo hpc hj hclient hother
  | relayNext hpc hskip => exact hs.relayNext hpc hskip
  | relayDone hpc hj =>
    rw [hpc] at hcur
    -- all clients are below `j`
    have hserved : Served s.trace :=
      (hs.telling hpc).done fun q hq _ => (hs.max q (hs.mem_master hq)).trans_lt hj
    exact hs.move hserved fun k hk hik => hcur.2 k hk hik

/-- **The server relays as long as it is defined**: in every state of every run before an
undefined store, `master` is the listening socket and the clients that were accepted and not
closed, `max_socket` is at least every member, and each chunk has been sent, before anything
else happened, once to each of the clients there were except the one it came from, and to
nobody else. -/
theorem relaying_of_defined {as : List (Action B)}
    (hrun : Machine.run (step socketListen) (init socketListen) as = some s)
    (hdef : s.pc ≠ .undefined) : Relaying socketListen s := by
  have hinv : s.pc ≠ .undefined → Inv socketListen s := by
    refine Machine.run_invariant (I := fun t => t.pc ≠ .undefined → Inv socketListen t) ?_
      (fun _ => inv_init socketListen) hrun
    intro t a t' ht hstep hdef'
    refine inv_step (ht fun hpc => ?_) hstep hdef'
    -- an undefined state is the last one
    cases a with
    | recvReturns chunk => cases chunk <;> simp [step, hpc] at hstep
    | selectReturns | selectFails | acceptReturns | acceptFails | tick =>
      simp [step, tick, hpc] at hstep
  exact (hinv hdef).toRelaying

/-! ## Staying within the arrays -/

/-- No store goes outside of its array, nor will the one that ends the inner loop. -/
def Pc.Safe : Pc B → Prop
  | relay _ _ _ chunk => chunk.length < bufferSize
  | undefined => False
  | select | scan _ _ | accept _ _ | recv _ _ | exited => True

theorem safe_step (hs : s.pc.Safe) (hok : InBounds a) (h : step socketListen s a = some s') :
    s'.pc.Safe := by
  cases step_trans h with
  | acceptedHigh _ hsize => exact absurd hok hsize
  | received => exact hok
  | relayTo hpc | relayNext hpc =>
    rw [hpc] at hs
    exact hs
  | relayOver hpc hfull =>
    rw [hpc] at hs
    exact absurd hs hfull
  | selectReturns | selectFails | accepted | acceptFails | closed | toAccept | toRecv
  | scanNext | scanDone | relayDone => trivial

/-- **The server relays.** In every run in which the stores stay within their arrays, every
state is defined and as it should be. -/
theorem relaying_run {socketListen : ℕ} (hlisten : socketListen < fdSetSize)
    {as : List (Action B)} {s : State B} (hok : ∀ a ∈ as, InBounds a)
    (hrun : Machine.run (step socketListen) (init socketListen) as = some s) :
    s.pc ≠ .undefined ∧ Relaying socketListen s := by
  have hinit : (init socketListen : State B).pc.Safe := by
    rw [init, if_pos hlisten]
    trivial
  have hsafe : s.pc.Safe := by
    refine Machine.run_invariant_mem (I := fun t => t.pc.Safe) ?_ hinit hok hrun
    intro t a t' ht hta hstep
    exact safe_step ht hta hstep
  have hdef : s.pc ≠ .undefined := by
    intro hpc
    rw [hpc] at hsafe
    exact hsafe
  exact ⟨hdef, relaying_of_defined hrun hdef⟩

instance decidableInBounds : ∀ a : Action B, Decidable (InBounds a)
  | .acceptReturns _ | .recvReturns (some _) => inferInstanceAs (Decidable (_ < _))
  | .selectReturns _ | .selectFails | .acceptFails | .recvReturns none | .tick => isTrue trivial

/-- One pass of the outer loop in which `ready` is the only ready descriptor, up to the
call it leads to. -/
def passTo (ready : ℕ) : List (Action ℕ) :=
  .selectReturns {ready} :: List.replicate ready .tick

/-- The listening socket is 5. Clients 3 and 4 are accepted. Then all three sockets are
ready: 3 closes, 4 sends a chunk that nobody gets, and a new client is accepted as 3. What 4
sends next goes to the new client. -/
def reusedNumber : List (Action ℕ) :=
  List.flatten [passTo 5, [.acceptReturns 3, .tick], passTo 5, [.acceptReturns 4, .tick],
    [.selectReturns {3, 4, 5}, .tick, .tick, .tick, .recvReturns none, .tick,
      .recvReturns (some [1]), .tick, .tick, .tick, .tick, .tick, .tick, .tick,
      .acceptReturns 3, .tick],
    passTo 4, [.recvReturns (some [2]), .tick, .tick, .tick, .tick]]

/-- The state that `reusedNumber` leads to. -/
def afterReuse : State ℕ where
  master := {3, 4, 5}
  maxSocket := 5
  pc := .relay 4 {4} 5 [2]
  trace := [.joined 3, .joined 4, .left 3, .said 4 [1], .joined 3, .said 4 [2], .sent 3 [2]]

theorem relaying_reusedNumber :
    Machine.run (step 5) (init 5) reusedNumber = some afterReuse ∧ Relaying 5 afterReuse := by
  have hrun : Machine.run (step 5) (init 5) reusedNumber = some afterReuse := by
    decide +kernel
  have hok : ∀ a ∈ reusedNumber, InBounds a := by decide
  exact ⟨hrun, (relaying_run (by decide) hok hrun).2⟩

/-! ## Stores outside of the arrays -/

/-- The inner loop goes on while `j` is not above `max_socket`. -/
theorem relay_tick {i j : ℕ} {reads : Finset ℕ} {chunk : List B}
    (hpc : s.pc = .relay i reads j chunk) (hj : j ≤ s.maxSocket) :
    ∃ t, step socketListen s .tick = some t ∧ t.pc = .relay i reads (j + 1) chunk ∧
      t.maxSocket = s.maxSocket := by
  simp only [step, tick, hpc, if_pos hj]
  split_ifs
  · exact ⟨_, rfl, rfl, rfl⟩
  · exact ⟨_, rfl, rfl, rfl⟩
  · exact ⟨_, rfl, rfl, rfl⟩

/-- The inner loop with a chunk that fills the buffer comes to the store behind it. -/
theorem full_chunk_undefined {i j : ℕ} {reads : Finset ℕ} {chunk : List B}
    (hpc : s.pc = .relay i reads j chunk) (hfull : ¬ chunk.length < bufferSize) :
    Machine.CanReach (step socketListen) (fun t => t.pc = .undefined) s := by
  -- induction on what is left of the inner loop
  induction hn : s.maxSocket + 1 - j generalizing s j with
  | zero =>
    have hstep : step socketListen s .tick = some { s with pc := .undefined } := by
      simp only [step, tick, hpc, if_neg (show ¬ j ≤ s.maxSocket by omega), if_neg hfull]
    exact .next hstep (.here rfl)
  | succ n ih =>
    obtain ⟨t, hstep, htpc, hmax⟩ : ∃ t, step socketListen s .tick = some t ∧ _ ∧ _ :=
      relay_tick hpc (by omega)
    exact .next hstep (ih htpc (by omega))

/-- **The condition is needed**: after a step with an answer that is out of bounds, the
server can go on to an undefined store. -/
theorem overrun_undefined (h : step socketListen s a = some s') (hbad : ¬ InBounds a) :
    Machine.CanReach (step socketListen) (fun t => t.pc = .undefined) s' := by
  cases step_trans h with
  | accepted _ _ _ hsize => exact absurd hsize hbad
  | acceptedHigh => exact .here rfl
  | received => exact full_chunk_undefined rfl hbad
  | selectReturns | selectFails | acceptFails | closed | toAccept | toRecv | scanNext
  | scanDone | relayTo | relayNext | relayDone | relayOver => exact absurd trivial hbad

/-- One client sends as much as the buffer holds. -/
def fillBuffer : List (Action ℕ) :=
  List.flatten [passTo 3, [.acceptReturns 4, .tick, .tick], passTo 4,
    [.recvReturns (some (List.replicate 1024 0)), .tick, .tick, .tick, .tick, .tick]]

/-- A client gets the number 1024. -/
def highDescriptor : List (Action ℕ) :=
  passTo 3 ++ [.acceptReturns 1024]

/-- **Two undefined stores**: behind the buffer, when a chunk of 1024 bytes has been
relayed, and behind an `fd_set`. -/
theorem undefined_stores :
    (∃ s, Machine.run (step 3) (init 3) fillBuffer = some s ∧ s.pc = .undefined) ∧
    (∃ s, Machine.run (step 3) (init 3) highDescriptor = some s ∧ s.pc = .undefined ∧
      ¬ Relaying 3 s) := by
  constructor
  · have hpc : (Machine.run (step 3) (init 3) fillBuffer).map State.pc = some .undefined := by
      decide +kernel
    exact Option.map_eq_some_iff.mp hpc
  · have hrun : Machine.run (step 3) (init 3) highDescriptor =
        some ⟨{3}, 3, .undefined, [.joined 1024]⟩ := by decide +kernel
    exact ⟨_, hrun, rfl, fun h => absurd h.master (by decide)⟩

end ChatServer

end CppPlayground
