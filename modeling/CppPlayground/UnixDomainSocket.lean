import CppPlayground.Machine
import CppPlayground.Channel
import Mathlib.Data.Int.Notation

/-!
# Unix domain sockets: one client, one reader

`UnixDomainSocketClient::send` and `UnixDomainSocketServer::readStream`
(`unix_domain_socket/unix_domain_socket.h`) at the two ends of one connection. The kernel
keeps the bytes that `write` has accepted and not yet given to `read`, in order. It decides
how much of a message a `write` accepts, or refuses it, and how many of the pending bytes a
`read` returns. All of its answers are part of the actions.

`send` does not look at how many bytes were accepted, only whether all were: if not, it
prints *partial write* and returns, unless the message was empty. So what arrives is what
the kernel has accepted (`Inv.chunks_eq_accepted`), and that is what was sent exactly if
every `write` accepted its message as a whole (`delivered_iff`).
-/

namespace CppPlayground

namespace UnixDomainSocket

open Channel

/-! ## Data -/

/-- A C string: the bytes before the terminating zero. -/
structure CString where
  bytes : List UInt8
  noZero : 0 ∉ bytes
  deriving DecidableEq

/-- What `write` returns. -/
inductive WriteResult
  /-- so many bytes were accepted -/
  | wrote (count : ℕ)
  /-- `-1` -/
  | failed
  deriving DecidableEq, Repr

/-- How a call of `send` ends. -/
inductive SendOutcome
  | sent
  /-- `fprintf(stderr, "partial write")` -/
  | partialWrite
  /-- `throw_errno("write error: ")` -/
  | writeError
  deriving DecidableEq, Repr

/-- The client's process. -/
inductive Client
  | running
  /-- an exception has left `send` -/
  | thrown
  /-- the process has ended and its descriptors are closed -/
  | gone
  deriving DecidableEq, Repr

/-- The thread that runs `readStream`. -/
inductive Reader
  | reading
  /-- end of file: the descriptor is closed, *Disconnected.* -/
  | disconnected
  /-- `throw_errno("read error: ")` -/
  | thrown
  deriving DecidableEq, Repr

/-- Both processes, the bytes in the kernel, and the history. -/
structure State where
  client : Client
  reader : Reader
  /-- the bytes that are accepted and not yet read -/
  pending : List UInt8
  /-- history: the messages passed to `send`, each with the answer of `write` -/
  sends : List (CString × WriteResult)
  /-- history: the chunks `readStream` obtained -/
  chunks : List (List UInt8)
  deriving DecidableEq

/-- What may happen next. -/
inductive Action
  /-- the client calls `send`, and `write` gives this answer -/
  | send (buf : CString) (result : WriteResult)
  /-- the client's process ends -/
  | hangUp
  /-- `read` returns so many bytes -/
  | read (count : ℕ)
  /-- `read` returns 0 -/
  | readEnd
  /-- `read` returns -1 -/
  | readError
  deriving DecidableEq

/-! ## The operations -/

/-- The value `write` returns. -/
def WriteResult.value : WriteResult → ℤ
  | wrote count => count
  | failed => -1

/-- The number of values of an `int`, `2 ^ 32`. -/
def intValues : ℕ := 4294967296

/-- The number of values of a `size_t`, `2 ^ 64`. -/
def sizeValues : ℕ := 18446744073709551616

/-- `int n = std::char_traits<char>::length(buf)`: the length is converted to `int`. -/
def CString.length (buf : CString) : ℤ :=
  (buf.bytes.length : ℤ).bmod intValues

/-- The number of bytes `write` is asked for: `n` is converted to `size_t`. -/
def CString.count (buf : CString) : ℕ :=
  (buf.length % sizeValues).toNat

/-- `write` accepts at most as many bytes as it is asked for, and none that are not there. -/
def WriteResult.Possible (buf : CString) : WriteResult → Prop
  | wrote count => count ≤ buf.count ∧ count ≤ buf.bytes.length
  | failed => True

instance (buf : CString) : ∀ result : WriteResult, Decidable (result.Possible buf)
  | .wrote _ => inferInstanceAs (Decidable (_ ∧ _))
  | .failed => isTrue trivial

/-- `UnixDomainSocketClient::send`, given the answer of `write`. -/
def send (buf : CString) (result : WriteResult) : SendOutcome :=
  let n := buf.length
  if result.value ≠ n then
    if n > 0 then .partialWrite
    else .writeError
  else .sent

/-- The bytes of a message that the kernel accepted. -/
def accepted (buf : CString) : WriteResult → List UInt8
  | .wrote count => buf.bytes.take count
  | .failed => []

/-- `sizeof(buf)` in `readStream`. -/
def bufferSize : ℕ := 100

/-- A connection on which nothing has been sent. -/
def init : State := ⟨.running, .reading, [], [], []⟩

/-- One step of the system; `none` if the action is not enabled. -/
def step (s : State) : Action → Option State
  | .send buf result =>
    if s.client = .running ∧ result.Possible buf then
      some { s with
        pending := s.pending ++ accepted buf result
        sends := s.sends ++ [(buf, result)]
        -- nobody catches the exception
        client := if send buf result = .writeError then .thrown else .running }
    else none
  | .hangUp => if s.client = .gone then none else some { s with client := .gone }
  | .read count =>
    if s.reader = .reading ∧ 0 < count ∧ count ≤ bufferSize ∧ count ≤ s.pending.length then
      some { s with
        pending := s.pending.drop count
        chunks := s.chunks ++ [s.pending.take count] }
    else none
  | .readEnd =>
    -- end of file: the peer is gone and there is nothing left to read
    if s.reader = .reading ∧ s.client = .gone ∧ s.pending = [] then
      some { s with reader := .disconnected }
    else none
  | .readError => if s.reader = .reading then some { s with reader := .thrown } else none

/-! ## What arrives is what was accepted -/

/-- The accepted parts of all messages. -/
def State.accepted (s : State) : List UInt8 :=
  s.sends.flatMap fun p => UnixDomainSocket.accepted p.1 p.2

/-- What every run keeps. -/
structure Inv (s : State) : Prop where
  /-- the kernel delivers what it has accepted, once and in order -/
  lossless : Lossless s.accepted s.chunks.flatten s.pending
  /-- only possible answers were given -/
  possible : ∀ p ∈ s.sends, p.2.Possible p.1
  /-- at the end of file everything has been read -/
  ended : s.reader = .disconnected → s.pending = [] ∧ s.client = .gone

variable {s s' : State} {a : Action}

theorem inv_init : Inv init := ⟨.empty, nofun, nofun⟩

theorem inv_step (hs : Inv s) (h : step s a = some s') : Inv s' := by
  obtain ⟨hlossless, hpossible, hended⟩ := hs
  cases a with
  | send buf result =>
    simp only [step] at h
    split at h <;> cases h
    next hg =>
      refine ⟨?_, ?_, fun hr => ?_⟩
      · have haccepted : s.accepted ++ accepted buf result =
            (s.sends ++ [(buf, result)]).flatMap fun p => accepted p.1 p.2 := by
          simp [State.accepted]
        rw [State.accepted, ← haccepted]
        exact hlossless.send _
      · rw [List.forall_mem_append, List.forall_mem_singleton]
        exact ⟨hpossible, hg.2⟩
      · exact absurd ((hended hr).2.symm.trans hg.1) nofun
  | hangUp =>
    simp only [step] at h
    split at h <;> cases h
    exact ⟨hlossless, hpossible, fun hr => ⟨(hended hr).1, rfl⟩⟩
  | read count =>
    simp only [step] at h
    split at h <;> cases h
    next hg =>
      refine ⟨?_, hpossible, fun hr => absurd (hg.1.symm.trans hr) nofun⟩
      rw [List.flatten_concat]
      exact hlossless.receive count
  | readEnd =>
    simp only [step] at h
    split at h <;> cases h
    next hg => exact ⟨hlossless, hpossible, fun _ => ⟨hg.2.2, hg.2.1⟩⟩
  | readError =>
    simp only [step] at h
    split at h <;> cases h
    exact ⟨hlossless, hpossible, nofun⟩

theorem inv_run {as : List Action} (hrun : Machine.run step init as = some s) : Inv s := by
  refine Machine.run_invariant (I := Inv) ?_ inv_init hrun
  intro t a t' ht hstep
  exact inv_step ht hstep

/-- At the end of file the reader has obtained what the kernel accepted. -/
theorem Inv.chunks_eq_accepted (hs : Inv s) (hr : s.reader = .disconnected) :
    s.chunks.flatten = s.accepted := by
  have hlossless := hs.lossless
  rw [(hs.ended hr).1] at hlossless
  exact hlossless.received_eq

/-! ## What arrives is what was sent -/

/-- The messages passed to `send`, altogether. -/
def State.sent (s : State) : List UInt8 :=
  s.sends.flatMap fun p => p.1.bytes

theorem accepted_isPrefix (buf : CString) (result : WriteResult) :
    accepted buf result <+: buf.bytes := by
  cases result with
  | wrote count => exact List.take_prefix count buf.bytes
  | failed => exact List.nil_prefix

/-- `send` throws if `write` fails on an empty message. -/
theorem send_empty_failed {buf : CString} (hbuf : buf.bytes = []) :
    send buf .failed = .writeError := by
  simp [send, CString.length, WriteResult.value, hbuf]

/-- A message has been accepted as a whole exactly if `write` returned its length, provided
`send` did not throw. -/
theorem accepted_eq_iff {buf : CString} {result : WriteResult} (hresult : result.Possible buf)
    (hsend : send buf result ≠ .writeError) :
    accepted buf result = buf.bytes ↔ result = .wrote buf.bytes.length := by
  cases result with
  | wrote count =>
    have hcount : count ≤ buf.bytes.length := hresult.2
    rw [accepted, List.take_eq_self_iff, WriteResult.wrote.injEq]
    omega
  | failed =>
    refine ⟨fun hempty => absurd (send_empty_failed ?_) hsend, nofun⟩
    exact hempty.symm

/-- **Delivery is complete exactly if every `write` was.** For all messages, all answers of
the kernel to each `write` and all ways to split the stream into reads: if no `send` threw
and the reader came to the end of the file, it obtained the concatenation of the messages
exactly if each `write` returned the length of its message. -/
theorem delivered_iff {as : List Action} {s : State} (hrun : Machine.run step init as = some s)
    (hreader : s.reader = .disconnected)
    (hsends : ∀ p ∈ s.sends, send p.1 p.2 ≠ .writeError) :
    s.chunks.flatten = s.sent ↔ ∀ p ∈ s.sends, p.2 = .wrote p.1.bytes.length := by
  have hs := inv_run hrun
  rw [hs.chunks_eq_accepted hreader, State.accepted, State.sent,
    flatMap_parts_eq_iff fun p _ => accepted_isPrefix p.1 p.2]
  refine forall₂_congr fun p hp => ?_
  exact accepted_eq_iff (hs.possible p hp) (hsends p hp)

/-- A message of two bytes. -/
def hello : CString := ⟨[104, 105], by decide⟩

/-- Two messages, read across their boundary. -/
def twoMessages : List Action :=
  [.send hello (.wrote 2), .read 1, .send hello (.wrote 2), .read 3, .hangUp, .readEnd]

theorem delivered_twoMessages :
    ∃ s, Machine.run step init twoMessages = some s ∧ s.reader = .disconnected ∧
      s.chunks = [[104], [105, 104, 105]] ∧ s.chunks.flatten = s.sent := by
  have hrun : Machine.run step init twoMessages = some ⟨.gone, .disconnected, [],
      [(hello, .wrote 2), (hello, .wrote 2)], [[104], [105, 104, 105]]⟩ := by decide
  exact ⟨_, hrun, rfl, rfl, (delivered_iff hrun rfl (by decide)).mpr (by decide)⟩

/-- The first message is accepted in part, the second one not at all. -/
def shortWrites : List Action :=
  [.send hello (.wrote 1), .send hello .failed, .hangUp, .read 1, .readEnd]

/-- **Short and failed writes go unnoticed**: no `send` throws, and three of four bytes do
not arrive. -/
theorem shortWrites_lose :
    ∃ s, Machine.run step init shortWrites = some s ∧ s.reader = .disconnected ∧
      (∀ p ∈ s.sends, send p.1 p.2 = .partialWrite) ∧
      s.sent = [104, 105, 104, 105] ∧ s.chunks.flatten = [104] := by
  have hrun : Machine.run step init shortWrites = some ⟨.gone, .disconnected, [],
      [(hello, .wrote 1), (hello, .failed)], [[104]]⟩ := by decide
  exact ⟨_, hrun, rfl, by decide, rfl, rfl⟩

end UnixDomainSocket

end CppPlayground
