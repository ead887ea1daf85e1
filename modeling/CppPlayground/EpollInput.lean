import CppPlayground.Machine

/-!
# Reading a terminal into ten bytes

`poll_examples/src/epoll_input.cpp` waits for input with `epoll_wait`, reads up to ten bytes into
a buffer of ten, writes a zero behind them, and ends when they start with `stop` and a newline. A
terminal gives at most one line to a `read`, and the rest of a longer line to the next ones.

`run_input` says how the loop ends: at the first line that is `stop`, or that fills the buffer.
In the second case the zero is written behind the end of the buffer.
-/

namespace CppPlayground

namespace EpollInput

open Machine

/-! ## Data -/

/-- `kReadBufferSize`. -/
def readBufferSize : ℕ := 10

def newline : UInt8 := 10

/-- A line as it is typed, with a newline at its end and nowhere else. -/
structure Line where
  text : List UInt8
  noNewline : newline ∉ text
  deriving DecidableEq

def Line.bytes (line : Line) : List UInt8 := line.text ++ [newline]

/-- Where the loop is. -/
inductive Pc
  /-- `epoll_wait` -/
  | polling
  /-- behind the loop -/
  | stopped
  /-- a byte outside of `read_buffer` has been written -/
  | corrupted
  deriving DecidableEq, Repr

structure State where
  readBuffer : List UInt8
  /-- what the terminal has, the first line without what has been read of it -/
  pending : List (List UInt8)
  pc : Pc
  /-- history: all lines -/
  typed : List Line

/-- What happens next. -/
inductive Action
  | type (line : Line)
  /-- `epoll_wait` returns, after its time or with input -/
  | poll

/-! ## The program -/

/-- `"stop\n"`. -/
def stop : List UInt8 := [115, 116, 111, 112, newline]

/-- `!strncmp(s, t, n)`. -/
def strncmpEq : List UInt8 → List UInt8 → ℕ → Bool
  | _, _, 0 => true
  | c :: s, d :: t, n + 1 => decide (c = d) && (decide (c = 0) || strncmpEq s t n)
  | _, _, _ => false

/-- What the terminal has left when these bytes of its first line are read. -/
def restOf (line : List UInt8) (n : ℕ) (lines : List (List UInt8)) : List (List UInt8) :=
  if line.length ≤ n then lines else line.drop n :: lines

/-- `read_buffer[bytes_read] = '\0'` and the comparison, for these bytes. -/
def handle (s : State) (chunk : List UInt8) : State :=
  if chunk.length < readBufferSize then
    let readBuffer := chunk ++ 0 :: s.readBuffer.drop (chunk.length + 1)
    { s with
      readBuffer := readBuffer
      pc := if strncmpEq readBuffer stop 5 then .stopped else .polling }
  else { s with pc := .corrupted }

/-- One step of the program or of the terminal; `none` if it is not enabled. -/
def step (s : State) : Action → Option State
  | .type line => some { s with pending := s.pending ++ [line.bytes], typed := s.typed ++ [line] }
  | .poll =>
    match s.pc with
    | .polling =>
      match s.pending with
      | [] => some s
      | line :: lines =>
        some (handle { s with pending := restOf line readBufferSize lines }
          (line.take readBufferSize))
    | _ => none

/-- With anything in the buffer. -/
def init (readBuffer : List UInt8) : State := ⟨readBuffer, [], .polling, []⟩

/-! ## The comparison -/

/-- A string without zeros, compared with bytes and the zero behind them. -/
theorem strncmpEq_iff {t : List UInt8} (ht : 0 ∉ t) (chunk rest : List UInt8) :
    strncmpEq (chunk ++ 0 :: rest) t t.length = true ↔ t <+: chunk := by
  induction t generalizing chunk with
  | nil => exact iff_of_true (by cases chunk <;> rfl) List.nil_prefix
  | cons d t ih =>
    have hd : d ≠ 0 := fun h => ht (h ▸ List.mem_cons_self ..)
    have ht' : 0 ∉ t := fun h => ht (List.mem_cons_of_mem d h)
    rcases chunk with _ | ⟨c, chunk⟩
    · simp [strncmpEq, Ne.symm hd]
    · simp only [List.cons_append, List.length_cons, strncmpEq, Bool.and_eq_true,
        decide_eq_true_eq, List.cons_prefix_cons]
      constructor
      · rintro ⟨rfl, h⟩
        simp only [hd, decide_false, Bool.false_or] at h
        exact ⟨rfl, (ih ht' chunk).mp h⟩
      · rintro ⟨rfl, h⟩
        exact ⟨rfl, by simp [(ih ht' chunk).mpr h]⟩

/-- A whole line starts with `stop` and a newline only if it is that. -/
theorem stop_prefix_iff (line : Line) : stop <+: line.bytes ↔ line.bytes = stop := by
  constructor
  · intro h
    rcases List.prefix_concat_iff.mp h with h | h
    · exact h.symm
    · exact absurd (h.subset (by decide : newline ∈ stop)) line.noNewline
  · intro h
    exact h ▸ List.prefix_rfl

/-! ## The lines that have been read -/

/-- A line that leaves the loop and the buffer as they are. -/
structure Ordinary (line : Line) : Prop where
  fits : line.bytes.length < readBufferSize
  ne_stop : line.bytes ≠ stop

/-- How far the loop has come in these lines. -/
inductive Progress : Pc → List Line → List (List UInt8) → Prop
  | polling {before : List Line} (rest : List Line) (hbefore : ∀ l ∈ before, Ordinary l) :
      Progress .polling (before ++ rest) (rest.map Line.bytes)
  | stopped {before : List Line} {line : Line} (rest : List Line) (pending : List (List UInt8))
      (hbefore : ∀ l ∈ before, Ordinary l) (hline : line.bytes = stop) :
      Progress .stopped (before ++ line :: rest) pending
  | corrupted {before : List Line} {line : Line} (rest : List Line) (pending : List (List UInt8))
      (hbefore : ∀ l ∈ before, Ordinary l) (hline : readBufferSize ≤ line.bytes.length) :
      Progress .corrupted (before ++ line :: rest) pending

variable {s s' : State} {a : Action}

theorem Progress.concat {pc : Pc} {typed : List Line} {pending : List (List UInt8)}
    (h : Progress pc typed pending) (line : Line) :
    Progress pc (typed ++ [line]) (pending ++ [line.bytes]) := by
  cases h with
  | polling rest hbefore =>
    rw [List.append_assoc]
    simpa using Progress.polling (rest ++ [line]) hbefore
  | stopped rest pending hbefore hline =>
    rw [List.append_assoc]
    exact .stopped (rest ++ [line]) _ hbefore hline
  | corrupted rest pending hbefore hline =>
    rw [List.append_assoc]
    exact .corrupted (rest ++ [line]) _ hbefore hline

theorem handle_typed (s : State) (chunk : List UInt8) : (handle s chunk).typed = s.typed := by
  unfold handle
  split <;> rfl

theorem handle_pending (s : State) (chunk : List UInt8) :
    (handle s chunk).pending = s.pending := by
  unfold handle
  split <;> rfl

/-- A `read` of a whole line, or of the first bytes of a longer one. -/
theorem progress_handle {before : List Line} {line : Line} {rest : List Line}
    (hbefore : ∀ l ∈ before, Ordinary l) (htyped : s.typed = before ++ line :: rest)
    (hpending : s.pending = restOf line.bytes readBufferSize (rest.map Line.bytes)) :
    Progress (handle s (line.bytes.take readBufferSize)).pc s.typed s.pending := by
  rw [htyped, hpending]
  by_cases hfits : line.bytes.length < readBufferSize
  · rw [List.take_of_length_le (Nat.le_of_lt hfits), restOf, if_pos (Nat.le_of_lt hfits), handle,
      if_pos hfits]
    have hcompare := (strncmpEq_iff (t := stop) (by decide) line.bytes
      (s.readBuffer.drop (line.bytes.length + 1))).trans (stop_prefix_iff line)
    dsimp only
    split
    · exact .stopped rest _ hbefore (hcompare.mp ‹_›)
    · have hordinary : ∀ l ∈ before ++ [line], Ordinary l := by
        intro l hl
        rcases List.mem_append.mp hl with hl | hl
        · exact hbefore l hl
        · obtain rfl := List.mem_singleton.mp hl
          exact ⟨hfits, fun hstop => absurd (hcompare.mpr hstop) ‹_›⟩
      rw [List.append_cons]
      exact .polling rest hordinary
  · have hlength : (line.bytes.take readBufferSize).length = readBufferSize :=
      List.length_take_of_le (Nat.not_lt.mp hfits)
    rw [handle, if_neg (by rw [hlength]; exact Nat.lt_irrefl _)]
    exact .corrupted rest _ hbefore (Nat.not_lt.mp hfits)

theorem progress_step (h : Progress s.pc s.typed s.pending) (hstep : step s a = some s') :
    Progress s'.pc s'.typed s'.pending := by
  cases a with
  | type line =>
    obtain rfl := Option.some.inj hstep
    exact h.concat line
  | poll =>
    obtain ⟨readBuffer, pending, pc, typed⟩ := s
    cases h with
    | @polling before rest hbefore =>
      cases rest with
      | nil =>
        obtain rfl := Option.some.inj hstep
        exact .polling [] hbefore
      | cons line rest =>
        obtain rfl := Option.some.inj hstep
        rw [handle_typed, handle_pending]
        exact progress_handle hbefore rfl rfl
    | stopped => cases hstep
    | corrupted => cases hstep

theorem run_progress {readBuffer : List UInt8} {actions : List Action}
    (hrun : run step (init readBuffer) actions = some s) : Progress s.pc s.typed s.pending :=
  run_invariant (I := fun s => Progress s.pc s.typed s.pending) progress_step
    (.polling [] fun _ hl => absurd hl List.not_mem_nil) hrun

/-- **How the loop ends.** At a terminal the loop goes on while the lines have less than ten bytes,
the newline included, and are not `stop`. The first line that is `stop` ends it. If a line of ten
bytes or more comes before, a zero is written behind the end of the buffer. -/
theorem run_input {readBuffer : List UInt8} {actions : List Action}
    (hrun : run step (init readBuffer) actions = some s) :
    ∃ before rest, s.typed = before ++ rest ∧ (∀ l ∈ before, Ordinary l) ∧
      (s.pc = .polling → s.pending = rest.map Line.bytes) ∧
      (s.pc = .stopped → ∃ line, rest.head? = some line ∧ line.bytes = stop) ∧
      (s.pc = .corrupted →
        ∃ line, rest.head? = some line ∧ readBufferSize ≤ line.bytes.length) := by
  have hprogress := run_progress hrun
  obtain ⟨readBuffer, pending, pc, typed⟩ := s
  cases hprogress with
  | @polling before rest hbefore =>
    exact ⟨before, rest, rfl, hbefore, fun _ => rfl, nofun, nofun⟩
  | @stopped before line rest pending hbefore hline =>
    exact ⟨before, line :: rest, rfl, hbefore, nofun, fun _ => ⟨line, rfl, hline⟩, nofun⟩
  | @corrupted before line rest pending hbefore hline =>
    exact ⟨before, line :: rest, rfl, hbefore, nofun, nofun, fun _ => ⟨line, rfl, hline⟩⟩

/-- Nine letters and a newline. -/
def nineLetters : List Action := [.type ⟨List.replicate 9 97, by decide⟩, .poll]

theorem run_input_nineLetters :
    ∃ s, run step (init []) nineLetters = some s ∧ s.pc = .corrupted ∧
      ∃ line ∈ s.typed, readBufferSize ≤ line.bytes.length := by
  obtain ⟨s, hs, hpc⟩ : ∃ s, run step (init []) nineLetters = some s ∧ s.pc = .corrupted :=
    ⟨_, rfl, rfl⟩
  obtain ⟨before, rest, htyped, -, -, -, hcorrupted⟩ := run_input hs
  obtain ⟨line, hhead, hline⟩ := hcorrupted hpc
  refine ⟨s, hs, hpc, line, ?_, hline⟩
  rw [htyped]
  exact List.mem_append_right _ (List.mem_of_mem_head? hhead)

end EpollInput

end CppPlayground
