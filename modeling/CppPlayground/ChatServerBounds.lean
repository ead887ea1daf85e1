import CppPlayground.ChatServer

/-!
# The array accesses of the chat server

Everything the select loop of `tcp_socket/server.c` does with `read[1024]` and with its two
`fd_set`s, step by step: the bytes that `recv` stores and `send` loads, the terminator, and
the descriptors given to `FD_SET`, `FD_CLR` and `FD_ISSET`.

Of the kernel only this is assumed: `recv` returns at most as many bytes as it was asked for,
and `select` reports members of the set it was given. `accept` may return any descriptor,
even one that is open already.

The accesses stay in bounds as long as the answers do (`accesses_inBounds_run`): `accept`
returns descriptors below `FD_SETSIZE` and `recv` leaves room for the terminator. The code
checks neither (`accesses_outOfBounds`).
-/

namespace CppPlayground

namespace ChatServer

universe u

variable {B : Type u}

/-! ## The loop with an arbitrary `accept` -/

/-- One step of the server, with any descriptor from `accept`. -/
def stepAny (socketListen : ℕ) (s : State B) : Action B → Option (State B)
  | .acceptReturns fd =>
    match s.pc with
    | .accept i reads =>
      if fd < fdSetSize then some { s with
        master := insert fd s.master
        maxSocket := if fd > s.maxSocket then fd else s.maxSocket
        pc := .scan (i + 1) reads
        trace := s.trace ++ [.joined fd] }
      else some { s with pc := .undefined, trace := s.trace ++ [.joined fd] }
    | _ => none
  | a => step socketListen s a

theorem stepAny_eq_step {socketListen : ℕ} {s : State B} {a : Action B}
    (haccept : ∀ fd, a ≠ .acceptReturns fd) :
    stepAny socketListen s a = step socketListen s a := by
  cases a with
  | acceptReturns fd => exact absurd rfl (haccept fd)
  | selectReturns | selectFails | acceptFails | recvReturns | tick => rfl

/-- It has all the steps there are with a descriptor that is not in use. -/
theorem stepAny_of_step {socketListen : ℕ} {s s' : State B} {a : Action B}
    (h : step socketListen s a = some s') : stepAny socketListen s a = some s' := by
  cases a with
  | acceptReturns fd =>
    simp only [step] at h
    split at h
    case h_2 => cases h
    case h_1 hpc =>
      simp only [stepAny, hpc]
      split at h
      case isTrue => exact h
      case isFalse => cases h
  | selectReturns | selectFails | acceptFails | recvReturns | tick =>
    rw [stepAny_eq_step fun fd hfd => by cases hfd]
    exact h

/-! ## The accesses -/

/-- An access to one of the arrays. -/
inductive Access : Type
  /-- `FD_SET`, `FD_CLR` or `FD_ISSET` with this descriptor -/
  | fdSet (fd : ℕ)
  /-- `read[idx]` -/
  | buffer (idx : ℕ)
  deriving DecidableEq, Repr

/-- The access is inside its array. -/
def Access.InBounds : Access → Prop
  | fdSet fd => fd < fdSetSize
  | buffer idx => idx < bufferSize

/-- The elements `read[0]`, …, `read[count - 1]`. -/
def bufferUpTo (count : ℕ) : List Access := (List.range count).map .buffer

/-- What the step with this action accesses. -/
def accesses (socketListen : ℕ) (s : State B) : Action B → List Access
  | .acceptReturns fd => [.fdSet fd]
  | .recvReturns none =>
    match s.pc with
    | .recv i _ => [.fdSet i]
    | _ => []
  | .recvReturns (some chunk) => bufferUpTo chunk.length
  | .tick =>
    match s.pc with
    | .scan i _ => if i ≤ s.maxSocket then [.fdSet i] else []
    | .relay i _ j chunk =>
      if j ≤ s.maxSocket then
        .fdSet j :: if j ∈ s.master ∧ ¬ (j = socketListen ∨ j = i) then bufferUpTo chunk.length
          else []
      else
        -- the terminator; `printf` reads up to there at most
        bufferUpTo (chunk.length + 1)
    | _ => []
  | _ => []

theorem bufferUpTo_inBounds {count : ℕ} (h : count ≤ bufferSize) :
    ∀ x ∈ bufferUpTo count, x.InBounds := by
  intro x hx
  obtain ⟨idx, hidx, rfl⟩ := List.mem_map.mp hx
  exact Nat.lt_of_lt_of_le (List.mem_range.mp hidx) h

/-! ## Staying in bounds -/

/-- No member of `master` is too high, and neither is what the server is about to use. -/
structure Within (s : State B) : Prop where
  max : s.maxSocket < fdSetSize
  safe : s.pc.Safe
  /-- the descriptor that is read from may be passed to `FD_CLR` -/
  recv : ∀ i reads, s.pc = .recv i reads → i < fdSetSize

theorem within_init {socketListen : ℕ} (h : socketListen < fdSetSize) :
    Within (init socketListen : State B) := by
  have hpc : (init socketListen : State B).pc = .select := if_pos h
  refine ⟨h, by rw [hpc]; trivial, fun i reads hrecv => ?_⟩
  rw [hpc] at hrecv
  cases hrecv

variable {socketListen : ℕ} {s s' : State B} {a : Action B}

/-- The outer loop goes to `recv` with a counter that is not above `max_socket`. -/
theorem le_maxSocket_of_recv {i : ℕ} {reads : Finset ℕ} (h : tick socketListen s = some s')
    (hrecv : s'.pc = .recv i reads) : i ≤ s.maxSocket := by
  unfold tick at h
  split at h
  case h_1 =>
    split_ifs at h with hmax hi hlisten <;> cases h <;> cases hrecv
    exact hmax
  case h_2 => split_ifs at h <;> cases h <;> cases hrecv
  case h_3 => cases h

/-- A step other than `accept`. -/
theorem Within.step (hs : Within s) (hok : InBounds a) (haccept : ∀ fd, a ≠ .acceptReturns fd)
    (h : step socketListen s a = some s') : Within s' := by
  refine ⟨?_, safe_step hs.safe hok h, fun i reads hrecv => ?_⟩
  · cases step_trans h with
    | accepted | acceptedHigh => exact absurd rfl (haccept _)
    | selectReturns | selectFails | acceptFails | closed | received | toAccept | toRecv
    | scanNext | scanDone | relayTo | relayNext | relayDone | relayOver => exact hs.max
  · cases step_trans h with
    | toRecv => exact Nat.lt_of_le_of_lt (le_maxSocket_of_recv h hrecv) hs.max
    | selectReturns | selectFails | accepted | acceptedHigh | acceptFails | closed | received
    | toAccept | scanNext | scanDone | relayTo | relayNext | relayDone | relayOver => cases hrecv

theorem within_step (hs : Within s) (hok : InBounds a)
    (h : stepAny socketListen s a = some s') : Within s' := by
  cases a with
  | acceptReturns fd =>
    have hfd : fd < fdSetSize := hok
    simp only [stepAny, if_pos hfd] at h
    split at h
    case h_2 => cases h
    case h_1 =>
      cases h
      refine ⟨?_, trivial, fun i reads hrecv => by cases hrecv⟩
      dsimp only
      split
      · exact hfd
      · exact hs.max
  | selectReturns | selectFails | acceptFails | recvReturns | tick =>
    rw [stepAny_eq_step fun fd hfd => by cases hfd] at h
    exact hs.step hok (fun fd hfd => by cases hfd) h

/-- What a step from such a state accesses is in bounds, if the answer is. -/
theorem accesses_inBounds (hs : Within s) (hok : InBounds a) :
    ∀ x ∈ accesses socketListen s a, x.InBounds := by
  have hfdSet : ∀ fd, fd < fdSetSize → ∀ x ∈ [Access.fdSet fd], x.InBounds := by
    intro fd hfd x hx
    obtain rfl := List.mem_singleton.mp hx
    exact hfd
  cases a with
  | acceptReturns fd => exact hfdSet fd hok
  | selectReturns | selectFails | acceptFails => exact fun x hx => by cases hx
  | recvReturns chunk =>
    cases chunk with
    | some chunk => exact bufferUpTo_inBounds (Nat.le_of_lt hok)
    | none =>
      rw [accesses]
      split
      case h_1 i reads hpc => exact hfdSet i (hs.recv i reads hpc)
      case h_2 => exact fun x hx => by cases hx
  | tick =>
    rw [accesses]
    split
    case h_1 i reads hpc =>
      split
      case isTrue hi => exact hfdSet i (Nat.lt_of_le_of_lt hi hs.max)
      case isFalse => exact fun x hx => by cases hx
    case h_2 i reads j chunk hpc =>
      have hsafe := hs.safe
      rw [hpc] at hsafe
      split
      case isFalse => exact bufferUpTo_inBounds hsafe
      case isTrue hj =>
        intro x hx
        rcases List.mem_cons.mp hx with rfl | hx
        · exact Nat.lt_of_le_of_lt hj hs.max
        · split at hx
          · exact bufferUpTo_inBounds (Nat.le_of_lt hsafe) x hx
          · cases hx
    case h_3 => exact fun x hx => by cases hx

/-- Every step of the run accesses the arrays inside their bounds only. -/
def AccessesInBounds (socketListen : ℕ) (as : List (Action B)) : Prop :=
  Machine.Along (stepAny socketListen)
    (fun s a => ∀ x ∈ accesses socketListen s a, x.InBounds) (init socketListen) as

/-- **The accesses stay in bounds as long as the answers do**: in every run in which the
listening socket and all descriptors from `accept` are below `FD_SETSIZE` and no `recv` fills
the buffer. -/
theorem accesses_inBounds_run {socketListen : ℕ} (hlisten : socketListen < fdSetSize)
    {as : List (Action B)} (hok : ∀ a ∈ as, InBounds a) : AccessesInBounds socketListen as := by
  refine Machine.along_of_invariant (I := Within) (p := InBounds) ?_ ?_ (within_init hlisten) hok
  · intro s a s' hs ha hstep
    exact within_step hs ha hstep
  · intro s a hs ha
    exact accesses_inBounds hs ha

instance decidableAccessInBounds : ∀ x : Access, Decidable x.InBounds
  | .fdSet _ | .buffer _ => inferInstanceAs (Decidable (_ < _))

theorem accesses_inBounds_reusedNumber :
    (∀ a ∈ reusedNumber, InBounds a) ∧
      (Machine.run (stepAny 5) (init 5) reusedNumber).isSome ∧ AccessesInBounds 5 reusedNumber := by
  have hok : ∀ a ∈ reusedNumber, InBounds a := by decide
  exact ⟨hok, by decide +kernel, accesses_inBounds_run (by decide) hok⟩

/-- **Accesses outside of both arrays**: `read[1024]`, when a chunk of 1024 bytes has been
relayed, and `FD_SET(1024, ..)`. -/
theorem accesses_outOfBounds :
    ((Machine.run (stepAny 3) (init 3) fillBuffer).isSome ∧ ¬ AccessesInBounds 3 fillBuffer) ∧
    (Machine.run (stepAny 3) (init 3) highDescriptor).isSome ∧
      ¬ AccessesInBounds 3 highDescriptor := by
  refine ⟨⟨by decide +kernel, ?_⟩, by decide +kernel, ?_⟩
  · rw [AccessesInBounds]
    decide +kernel
  · rw [AccessesInBounds]
    decide +kernel

end ChatServer

end CppPlayground
