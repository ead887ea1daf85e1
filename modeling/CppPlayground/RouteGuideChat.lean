import CppPlayground.Machine
import CppPlayground.RouteGuideParser
import Mathlib.Algebra.BigOperators.Group.Finset.Piecewise
import Mathlib.Algebra.Order.Ring.Nat
import Mathlib.Data.Nat.Choose.Basic

/-!
# The chat of the route guide

`RouteChat` (`route_guide_server.cpp` of the gRPC example) answers each note of a stream with
the notes that the server has received before at the same place, from any stream, and then keeps
the note. The server runs any number of these calls at the same time; the loop over
`received_notes_` and the `push_back` are under one mutex.

A step is one access to the mutex, to the vector or to a stream, so that the calls are
interleaved at each of them. A loop over the vector holds the end it started with.

* `answers` — what a stream is sent if the notes come one after the other.
* `Inv` — the vector is the list of notes in the order in which they were kept, and whoever is
  in the loop has the mutex. It is kept by each step, and it makes the calls look as if each note
  was handled at once, when it is kept (`run_linearizable`).
* `run_sum_countAt` — every two notes at one place are exchanged once: the later one's stream is
  sent the earlier one.
-/

namespace CppPlayground

namespace RouteGuide

open Machine

/-- `RouteNote`. -/
structure RouteNote where
  location : Point
  message : List Char
  deriving DecidableEq, Repr

/-- The condition in the loop of `RouteChat`. -/
def RouteNote.sameLocation (note n : RouteNote) : Bool :=
  n.location.latitude = note.location.latitude && n.location.longitude = note.location.longitude

theorem RouteNote.sameLocation_iff {note n : RouteNote} :
    note.sameLocation n = true ↔ n.location = note.location := by
  rw [RouteNote.sameLocation, Bool.and_eq_true, decide_eq_true_iff, decide_eq_true_iff]
  cases n.location
  cases note.location
  simp

/-! ## The calls -/

/-- Where a call of `RouteChat` is. -/
inductive Pc
  /-- `stream->Read(&note)` -/
  | reading
  /-- the mutex is to be locked -/
  | locking (note : RouteNote)
  /-- in the loop, at this element, with the end it started with -/
  | scanning (note : RouteNote) (i last : ℕ)
  /-- behind `push_back` -/
  | unlocking
  /-- `Read` has returned false -/
  | finished
  deriving DecidableEq, Repr

/-- The call has the mutex. -/
def Pc.inside : Pc → Bool
  | .scanning _ _ _ | .unlocking => true
  | .reading | .locking _ | .finished => false

/-- The note that the call has read and not kept. -/
def Pc.pending : Pc → List RouteNote
  | .locking note | .scanning note _ _ => [note]
  | .reading | .unlocking | .finished => []

/-- What the loop has sent of these notes. -/
def Pc.sent (notes : List RouteNote) : Pc → List RouteNote
  | .scanning note i _ => (notes.take i).filter note.sameLocation
  | .reading | .locking _ | .unlocking | .finished => []

/-- A loop is between the start and the end of these notes. -/
def Pc.Bounded (notes : List RouteNote) : Pc → Prop
  | .scanning _ i last => last = notes.length ∧ i ≤ last
  | .reading | .locking _ | .unlocking | .finished => True

theorem Pc.sent_of_not_inside {pc : Pc} (h : pc.inside = false) (notes : List RouteNote) :
    pc.sent notes = [] := by
  cases pc <;> first | rfl | cases h

theorem Pc.bounded_of_not_inside {pc : Pc} (h : pc.inside = false) (notes : List RouteNote) :
    pc.Bounded notes := by
  cases pc <;> trivial

/-- The call is at its stream, or through. -/
def Pc.idle : Pc → Bool
  | .reading | .finished => true
  | .locking _ | .scanning _ _ _ | .unlocking => false

theorem Pc.pending_of_idle {pc : Pc} (h : pc.idle = true) : pc.pending = [] := by
  cases pc <;> first | rfl | cases h

theorem Pc.not_inside_of_idle {pc : Pc} (h : pc.idle = true) : pc.inside = false := by
  cases pc <;> first | rfl | cases h

/-- The service with its calls. -/
structure Chat (K : Type) where
  receivedNotes : List RouteNote
  /-- the call that has locked `mu_` -/
  mu : Option K
  pc : K → Pc
  /-- what has been passed to `stream->Write` -/
  written : K → List RouteNote
  /-- history: what `stream->Read` has given -/
  read : K → List RouteNote
  /-- history: the notes that were kept, each with its call -/
  kept : List (K × RouteNote)

/-- What happens next. -/
inductive ChatAction (K : Type)
  /-- `Read` gives a note -/
  | read (k : K) (note : RouteNote)
  /-- `Read` returns false -/
  | close (k : K)
  /-- the call goes on -/
  | advance (k : K)
  deriving DecidableEq, Repr

namespace Chat

variable {K : Type} [DecidableEq K]

/-- The service before its calls. -/
def init : Chat K := ⟨[], none, fun _ => .reading, fun _ => [], fun _ => [], []⟩

def goTo (s : Chat K) (k : K) (pc : Pc) : Chat K := { s with pc := Function.update s.pc k pc }

/-- `stream->Write(n)`. -/
def write (s : Chat K) (k : K) (n : RouteNote) : Chat K :=
  { s with written := Function.update s.written k (s.written k ++ [n]) }

/-- `received_notes_.push_back(note)`. -/
def keep (s : Chat K) (k : K) (note : RouteNote) : Chat K :=
  { s with receivedNotes := s.receivedNotes ++ [note], kept := s.kept ++ [(k, note)] }

/-- The next access of a call that does not wait for its stream. -/
def advance (s : Chat K) (k : K) : Option (Chat K) :=
  match s.pc k with
  | .locking note =>
    if s.mu = none then
      some { s.goTo k (.scanning note 0 s.receivedNotes.length) with mu := some k }
    else none
  | .scanning note i last =>
    if i = last then some ((s.keep k note).goTo k .unlocking)
    else
      match s.receivedNotes[i]? with
      | none => none
      | some n =>
        if note.sameLocation n then some ((s.write k n).goTo k (.scanning note (i + 1) last))
        else some (s.goTo k (.scanning note (i + 1) last))
  | .unlocking => some { s.goTo k .reading with mu := none }
  | .reading | .finished => none

/-- One step of the service; `none` if it is not enabled. -/
def step (s : Chat K) (action : ChatAction K) : Option (Chat K) :=
  match action with
  | .read k note =>
    if s.pc k = .reading then
      some { s.goTo k (.locking note) with read := Function.update s.read k (s.read k ++ [note]) }
    else none
  | .close k => if s.pc k = .reading then some (s.goTo k .finished) else none
  | .advance k => s.advance k

/-! ## What a step can do -/

/-- The cases of a step. -/
inductive Step (s : Chat K) : ChatAction K → Chat K → Prop
  | read {k : K} (note : RouteNote) (hpc : s.pc k = .reading) :
      Step s (.read k note)
        { s.goTo k (.locking note) with read := Function.update s.read k (s.read k ++ [note]) }
  | close {k : K} (hpc : s.pc k = .reading) : Step s (.close k) (s.goTo k .finished)
  | lock {k : K} {note : RouteNote} (hpc : s.pc k = .locking note) (hmu : s.mu = none) :
      Step s (.advance k)
        { s.goTo k (.scanning note 0 s.receivedNotes.length) with mu := some k }
  | keep {k : K} {note : RouteNote} {last : ℕ} (hpc : s.pc k = .scanning note last last) :
      Step s (.advance k) ((s.keep k note).goTo k .unlocking)
  | write {k : K} {note n : RouteNote} {i last : ℕ} (hpc : s.pc k = .scanning note i last)
      (hi : i ≠ last) (hn : s.receivedNotes[i]? = some n) (hsame : note.sameLocation n = true) :
      Step s (.advance k) ((s.write k n).goTo k (.scanning note (i + 1) last))
  | skip {k : K} {note n : RouteNote} {i last : ℕ} (hpc : s.pc k = .scanning note i last)
      (hi : i ≠ last) (hn : s.receivedNotes[i]? = some n) (hsame : note.sameLocation n = false) :
      Step s (.advance k) (s.goTo k (.scanning note (i + 1) last))
  | unlock {k : K} (hpc : s.pc k = .unlocking) :
      Step s (.advance k) { s.goTo k .reading with mu := none }

theorem step_cases {s s' : Chat K} {a : ChatAction K} (h : s.step a = some s') : Step s a s' := by
  cases a with
  | read k note =>
    rw [step] at h
    split at h
    · cases h
      exact .read note ‹_›
    · cases h
  | close k =>
    rw [step] at h
    split at h
    · cases h
      exact .close ‹_›
    · cases h
  | advance k =>
    rw [step, advance] at h
    split at h
    next note hpc =>
      split at h
      · cases h
        exact .lock hpc ‹_›
      · cases h
    next note i last hpc =>
      split at h
      next hi =>
        cases h
        subst hi
        exact .keep hpc
      next hi =>
        split at h
        · cases h
        next n hn =>
          split at h
          · cases h
            exact .write hpc hi hn ‹_›
          · cases h
            exact .skip hpc hi hn (Bool.eq_false_iff.mpr ‹_›)
    next hpc =>
      cases h
      exact .unlock hpc
    all_goals cases h

/-! ## One note after the other -/

/-- The notes of one stream. -/
def keptBy (k : K) (kept : List (K × RouteNote)) : List RouteNote :=
  (kept.filter fun x => x.1 = k).map Prod.snd

/-- What a stream is sent if the notes are handled one after the other, behind these earlier
ones. -/
def answers (k : K) (earlier : List RouteNote) : List (K × RouteNote) → List RouteNote
  | [] => []
  | (j, note) :: kept =>
    (if j = k then earlier.filter note.sameLocation else []) ++
      answers k (earlier ++ [note]) kept

theorem keptBy_concat (k j : K) (kept : List (K × RouteNote)) (note : RouteNote) :
    keptBy k (kept ++ [(j, note)]) = keptBy k kept ++ if j = k then [note] else [] := by
  rw [keptBy, List.filter_append, List.map_append, ← keptBy]
  by_cases hj : j = k <;> simp [hj]

theorem answers_concat (k j : K) (earlier : List RouteNote) (kept : List (K × RouteNote))
    (note : RouteNote) :
    answers k earlier (kept ++ [(j, note)]) =
      answers k earlier kept ++
        if j = k then (earlier ++ kept.map Prod.snd).filter note.sameLocation else [] := by
  induction kept generalizing earlier with
  | nil => simp [answers]
  | cons x kept ih =>
    rw [List.cons_append, answers, ih, answers, List.append_assoc, List.map_cons,
      List.append_assoc, List.singleton_append]

/-! ## The invariant -/

/-- What holds of a call at this place. -/
structure Fits (s : Chat K) (k : K) (pc : Pc) : Prop where
  holder : s.mu = some k ↔ pc.inside = true
  bounded : pc.Bounded s.receivedNotes
  read : s.read k = keptBy k s.kept ++ pc.pending
  written : s.written k = answers k [] s.kept ++ pc.sent s.receivedNotes

structure Inv (s : Chat K) : Prop where
  notes : s.receivedNotes = s.kept.map Prod.snd
  fits : ∀ k, s.Fits k (s.pc k)

variable {s s' : Chat K} {k : K}

theorem inv_init : (init : Chat K).Inv where
  notes := rfl
  fits k := ⟨by simp [init, Pc.inside], trivial, rfl, rfl⟩

/-- Only one call is inside. -/
theorem Inv.eq_of_inside (h : s.Inv) (hk : (s.pc k).inside = true) {j : K}
    (hj : (s.pc j).inside = true) : j = k := by
  have hkmu := (h.fits k).holder.mpr hk
  have hjmu := (h.fits j).holder.mpr hj
  rw [hkmu] at hjmu
  exact (Option.some.inj hjmu).symm

/-- A call goes on and the others stay where they are. -/
theorem forall_fits_goTo (pc : Pc) (hk : s'.Fits k pc) (hpc : s'.pc = Function.update s.pc k pc)
    (hother : ∀ j, j ≠ k → s'.Fits j (s.pc j)) : ∀ j, s'.Fits j (s'.pc j) := by
  intro j
  rw [hpc, Function.update_apply]
  split
  · subst ‹j = k›
    exact hk
  · exact hother j ‹_›

theorem inv_step {a : ChatAction K} (h : s.Inv) (hstep : s.step a = some s') : s'.Inv := by
  cases step_cases hstep with
  | @read k note hpc =>
    have hk := h.fits k
    rw [hpc] at hk
    refine ⟨h.notes, forall_fits_goTo (.locking note) ?_ rfl fun j hj => ?_⟩
    · refine ⟨hk.holder, trivial, ?_, hk.written⟩
      have hread : s.read k = keptBy k s.kept ++ [] := hk.read
      simp [hread, goTo, Pc.pending]
    · have hother := h.fits j
      refine ⟨hother.holder, hother.bounded, ?_, hother.written⟩
      simpa [hj, goTo] using hother.read
  | @close k hpc =>
    have hk := h.fits k
    rw [hpc] at hk
    exact ⟨h.notes, forall_fits_goTo .finished ⟨hk.holder, trivial, hk.read, hk.written⟩ rfl
      fun j _ => ⟨(h.fits j).holder, (h.fits j).bounded, (h.fits j).read, (h.fits j).written⟩⟩
  | @lock k note hpc hmu =>
    have hk := h.fits k
    rw [hpc] at hk
    refine ⟨h.notes, forall_fits_goTo (.scanning note 0 s.receivedNotes.length) ?_ rfl
      fun j hj => ?_⟩
    · exact ⟨by simp [Pc.inside], ⟨rfl, Nat.zero_le _⟩, hk.read,
        by simpa [goTo, Pc.sent] using hk.written⟩
    · have hother := h.fits j
      refine ⟨?_, hother.bounded, hother.read, hother.written⟩
      rw [← hother.holder, hmu]
      simp [Ne.symm hj]
  | @keep k note last hpc =>
    have hk := h.fits k
    rw [hpc] at hk
    obtain ⟨hlast, -⟩ := hk.bounded
    refine ⟨?_, forall_fits_goTo .unlocking ?_ rfl fun j hj => ?_⟩
    · simp [goTo, keep, h.notes]
    · refine ⟨hk.holder, trivial, ?_, ?_⟩
      · simpa [goTo, keep, keptBy_concat, Pc.pending] using hk.read
      · have hwritten := hk.written
        rw [Pc.sent, hlast, List.take_length, h.notes] at hwritten
        simpa [goTo, keep, answers_concat, Pc.sent] using hwritten
    · have hother := h.fits j
      have hout : (s.pc j).inside = false := by
        rw [Bool.eq_false_iff]
        intro hin
        exact hj (h.eq_of_inside (by rw [hpc]; rfl) hin)
      refine ⟨hother.holder, Pc.bounded_of_not_inside hout _, ?_, ?_⟩
      · simpa [goTo, keep, keptBy_concat, Ne.symm hj] using hother.read
      · have hwritten := hother.written
        rw [Pc.sent_of_not_inside hout, List.append_nil] at hwritten
        simpa [goTo, keep, answers_concat, Ne.symm hj, Pc.sent_of_not_inside hout] using hwritten
  | @write k note n i last hpc hi hn hsame =>
    have hk := h.fits k
    rw [hpc] at hk
    refine ⟨h.notes, forall_fits_goTo (.scanning note (i + 1) last) ?_ rfl fun j hj => ?_⟩
    · refine ⟨hk.holder, ?_, hk.read, ?_⟩
      · obtain ⟨hlast, hle⟩ := hk.bounded
        exact ⟨hlast, by omega⟩
      · have hwritten := hk.written
        rw [Pc.sent] at hwritten
        simp [goTo, write, hwritten, Pc.sent, List.take_add_one, hn, hsame]
    · have hother := h.fits j
      refine ⟨hother.holder, hother.bounded, hother.read, ?_⟩
      simpa [goTo, write, hj] using hother.written
  | @skip k note n i last hpc hi hn hsame =>
    have hk := h.fits k
    rw [hpc] at hk
    refine ⟨h.notes, forall_fits_goTo (.scanning note (i + 1) last) ?_ rfl fun j _ =>
      ⟨(h.fits j).holder, (h.fits j).bounded, (h.fits j).read, (h.fits j).written⟩⟩
    refine ⟨hk.holder, ?_, hk.read, ?_⟩
    · obtain ⟨hlast, hle⟩ := hk.bounded
      exact ⟨hlast, by omega⟩
    · have hwritten := hk.written
      rw [Pc.sent] at hwritten
      simp [goTo, hwritten, Pc.sent, List.take_add_one, hn, hsame]
  | @unlock k hpc =>
    have hk := h.fits k
    rw [hpc] at hk
    refine ⟨h.notes, forall_fits_goTo .reading ?_ rfl fun j hj => ?_⟩
    · exact ⟨by simp [Pc.inside], trivial, hk.read, hk.written⟩
    · have hother := h.fits j
      refine ⟨?_, hother.bounded, hother.read, hother.written⟩
      rw [← hother.holder, hk.holder.mpr rfl]
      simp [Ne.symm hj]

theorem run_inv {acts : List (ChatAction K)} (h : run step init acts = some s) : s.Inv :=
  run_invariant (fun hs hstep => inv_step hs hstep) inv_init h

theorem Inv.read_of_idle (h : s.Inv) (hidle : (s.pc k).idle = true) :
    s.read k = keptBy k s.kept := by
  rw [(h.fits k).read, Pc.pending_of_idle hidle, List.append_nil]

theorem Inv.written_of_idle (h : s.Inv) (hidle : (s.pc k).idle = true) :
    s.written k = answers k [] s.kept := by
  rw [(h.fits k).written, Pc.sent_of_not_inside (Pc.not_inside_of_idle hidle), List.append_nil]

/-! ## The calls together -/

/-- A note that is kept stays where it is. -/
theorem kept_prefix_of_step {a : ChatAction K} (h : s.step a = some s') : s.kept <+: s'.kept := by
  cases step_cases h with
  | keep hpc => exact List.prefix_append ..
  | read | close | lock | write | skip | unlock => exact List.prefix_rfl

theorem kept_prefix_of_run {acts : List (ChatAction K)} (h : run step s acts = some s') :
    s.kept <+: s'.kept := by
  refine run_invariant (I := fun t => s.kept <+: t.kept) ?_ List.prefix_rfl h
  intro t a t' ht hstep
  exact ht.trans (kept_prefix_of_step hstep)

/-- **The calls are linearizable.** There is one order of all notes, which contains the notes of
each stream in the order in which they were read and only grows at its end. Each call that has
nothing left to do has sent what it would have sent if the notes had been handled one after the
other in this order. -/
theorem run_linearizable {acts more : List (ChatAction K)} (h : run step init acts = some s)
    (hmore : run step s more = some s') :
    s.kept <+: s'.kept ∧
      ∀ k, (s'.pc k).idle = true →
        s'.read k = keptBy k s'.kept ∧ s'.written k = answers k [] s'.kept := by
  refine ⟨kept_prefix_of_run hmore, fun k hidle => ?_⟩
  have hinv : s'.Inv := run_invariant (fun hs hstep => inv_step hs hstep) (run_inv h) hmore
  exact ⟨hinv.read_of_idle hidle, hinv.written_of_idle hidle⟩

/-- Two streams with a note each at one place, the second one's after the first one's. -/
def twoNotes : List (ChatAction Bool) :=
  [.read true ⟨⟨0, 0⟩, "First message".toList⟩, .advance true, .read false ⟨⟨0, 0⟩, []⟩,
    .advance true, .advance true, .advance false, .advance false, .advance false, .advance false]

theorem run_twoNotes :
    ∃ s : Chat Bool, run step init twoNotes = some s ∧ ∀ k, (s.pc k).idle = true := by
  refine ⟨_, rfl, fun k => ?_⟩
  cases k <;> rfl

theorem run_linearizable_twoNotes :
    ∃ s : Chat Bool, run step init twoNotes = some s ∧ (s.pc false).idle = true ∧
      s.kept <+: s.kept ∧ ∀ k, (s.pc k).idle = true →
        s.read k = keptBy k s.kept ∧ s.written k = answers k [] s.kept := by
  obtain ⟨s, hs, hidle⟩ := run_twoNotes
  have hstay : run step s [] = some s := rfl
  exact ⟨s, hs, hidle false, run_linearizable hs hstay⟩

/-- How many of the notes are at this place. -/
def countAt (p : Point) (notes : List RouteNote) : ℕ := notes.countP fun n => n.location = p

theorem countAt_append (p : Point) (notes notes' : List RouteNote) :
    countAt p (notes ++ notes') = countAt p notes + countAt p notes' :=
  List.countP_append ..

theorem countAt_filter (p : Point) (note : RouteNote) (notes : List RouteNote) :
    countAt p (notes.filter note.sameLocation) =
      if note.location = p then countAt p notes else 0 := by
  rw [countAt, List.countP_filter]
  split
  next hp =>
    refine List.countP_congr fun n _ => ?_
    simp [RouteNote.sameLocation_iff, hp]
  next hp =>
    rw [List.countP_eq_zero]
    intro n _ hn
    simp only [Bool.and_eq_true, decide_eq_true_eq, RouteNote.sameLocation_iff] at hn
    exact hp (hn.2.symm.trans hn.1)

/-- One more note in the list of one of the streams. -/
theorem sum_countAt_ite [Fintype K] (p : Point) (j : K) (notes : List RouteNote) :
    ∑ k, countAt p (if j = k then notes else []) = countAt p notes := by
  have hite : ∀ k, countAt p (if j = k then notes else []) =
      if j = k then countAt p notes else 0 := by
    intro k
    split <;> rfl
  simp only [hite, Finset.sum_ite_eq, Finset.mem_univ, if_true]

theorem sum_countAt_keptBy [Fintype K] (p : Point) (kept : List (K × RouteNote)) :
    ∑ k, countAt p (keptBy k kept) = countAt p (kept.map Prod.snd) := by
  induction kept using List.reverseRecOn with
  | nil => simp [keptBy, countAt]
  | append_singleton kept x ih =>
    obtain ⟨j, note⟩ := x
    simp only [keptBy_concat, countAt_append, Finset.sum_add_distrib, sum_countAt_ite, ih,
      List.map_append, List.map_cons, List.map_nil]

theorem sum_countAt_answers [Fintype K] (p : Point) (kept : List (K × RouteNote)) :
    ∑ k, countAt p (answers k [] kept) = (countAt p (kept.map Prod.snd)).choose 2 := by
  induction kept using List.reverseRecOn with
  | nil => simp [answers, countAt]
  | append_singleton kept x ih =>
    obtain ⟨j, note⟩ := x
    simp only [answers_concat, countAt_append, Finset.sum_add_distrib, sum_countAt_ite, ih,
      List.nil_append, countAt_filter, List.map_append, List.map_cons, List.map_nil]
    by_cases hp : note.location = p
    · have hone : countAt p [note] = 1 := by simp [countAt, hp]
      rw [if_pos hp, hone, Nat.choose_succ_succ', Nat.choose_one_right, Nat.add_comm]
    · have hzero : countAt p [note] = 0 := by simp [countAt, hp]
      rw [if_neg hp, hzero, Nat.add_zero, Nat.add_zero]

/-- **Exchange.** Once every call is through with what it has read, each two of the notes at a
place have been exchanged exactly once: one of the two streams was sent the other's note. -/
theorem run_sum_countAt [Fintype K] {acts : List (ChatAction K)} (h : run step init acts = some s)
    (hidle : ∀ k, (s.pc k).idle = true) (p : Point) :
    ∑ k, countAt p (s.written k) = (∑ k, countAt p (s.read k)).choose 2 := by
  have hinv := run_inv h
  have hwritten : ∀ k, s.written k = answers k [] s.kept := fun k => hinv.written_of_idle (hidle k)
  have hread : ∀ k, s.read k = keptBy k s.kept := fun k => hinv.read_of_idle (hidle k)
  simp only [hwritten, hread, sum_countAt_answers, sum_countAt_keptBy]

theorem run_sum_countAt_twoNotes :
    ∃ s : Chat Bool, run step init twoNotes = some s ∧ (∀ k, (s.pc k).idle = true) ∧
      ∑ k, countAt ⟨0, 0⟩ (s.written k) = (∑ k, countAt ⟨0, 0⟩ (s.read k)).choose 2 := by
  obtain ⟨s, hs, hidle⟩ := run_twoNotes
  exact ⟨s, hs, hidle, run_sum_countAt hs hidle ⟨0, 0⟩⟩

/-! ## Progress -/

/-- A bound for the steps up to the next `Read`, if nobody comes in between. -/
def cost (notes : List RouteNote) : Pc → ℕ
  | .locking _ => notes.length + 5
  | .scanning _ i last => last - i + 4
  | .unlocking => 2
  | .reading | .finished => 0

/-- The same with the call that has the mutex first. -/
def distance (k : K) (s : Chat K) : ℕ :=
  (match s.mu with
    | some j => if j = k then 0 else cost s.receivedNotes (s.pc j)
    | none => 0) + cost s.receivedNotes (s.pc k)

end Chat

end RouteGuide

end CppPlayground
