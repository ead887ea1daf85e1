import CppPlayground.RouteGuideChat

/-!
# The chat of the route guide, from the client

`RouteGuideClient::RouteChat` (`route_guide_client.cpp`) writes its notes in a thread of its own,
says that it is done, and prints what the server sends until there is no more. Here any number of
such clients run against the service of `Chat`, each with two streams in which nothing is lost or
overtaken.

The service does not know of the clients: a run of the whole is a run of `Chat`, in which what a
call reads is what its client has written. So when a client has printed all, its notes have been
kept in their order, and it has printed what `answers` says (`run_answers`). If there are no other
clients, the four notes of the program give one line (`run_alone`).
-/

namespace CppPlayground

namespace RouteGuide

open Machine

variable {K : Type}

/-- The service, the clients and the streams between them. -/
structure ChatSystem (K : Type) where
  chat : Chat K
  /-- what the writing threads have left to do -/
  toSend : K → List RouteNote
  /-- whether `stream->WritesDone()` was called -/
  writesDone : K → Bool
  /-- written by the clients and not yet read by the server -/
  requests : K → List RouteNote
  /-- the notes after "Got message" -/
  printed : K → List RouteNote
  /-- whether the `Read` of the client has returned false -/
  ended : K → Bool

/-- What happens next. -/
inductive ChatSystemAction (K : Type)
  /-- `stream->Write(note)` in the client's thread -/
  | write (k : K)
  /-- `stream->WritesDone()` -/
  | writesDone (k : K)
  /-- the `Read` of the server gives a note -/
  | receive (k : K)
  /-- the `Read` of the server returns false -/
  | close (k : K)
  /-- the call in the server goes on -/
  | advance (k : K)
  /-- the `Read` of the client gives a note -/
  | read (k : K)
  /-- the `Read` of the client returns false -/
  | readEnd (k : K)
  deriving DecidableEq, Repr

namespace ChatSystem

variable [DecidableEq K]

/-- Before the first note is written. -/
def init (notes : K → List RouteNote) : ChatSystem K :=
  ⟨Chat.init, notes, fun _ => false, fun _ => [], fun _ => [], fun _ => false⟩

/-- One step of the service or of a client; `none` if it is not enabled. -/
def step (s : ChatSystem K) : ChatSystemAction K → Option (ChatSystem K)
  | .write k =>
    match s.toSend k with
    | [] => none
    | note :: rest =>
      some { s with
        toSend := Function.update s.toSend k rest
        requests := Function.update s.requests k (s.requests k ++ [note]) }
  | .writesDone k =>
    if s.toSend k = [] then some { s with writesDone := Function.update s.writesDone k true }
    else none
  | .receive k =>
    match s.requests k with
    | [] => none
    | note :: rest =>
      (s.chat.step (.read k note)).map fun chat =>
        { s with chat := chat, requests := Function.update s.requests k rest }
  | .close k =>
    if s.requests k = [] ∧ s.writesDone k = true then
      (s.chat.step (.close k)).map fun chat => { s with chat := chat }
    else none
  | .advance k => (s.chat.step (.advance k)).map fun chat => { s with chat := chat }
  | .read k =>
    match (s.chat.written k)[(s.printed k).length]? with
    | none => none
    | some note => some { s with printed := Function.update s.printed k (s.printed k ++ [note]) }
  | .readEnd k =>
    if s.chat.pc k = .finished ∧ s.printed k = s.chat.written k then
      some { s with ended := Function.update s.ended k true }
    else none

end ChatSystem

/-! ## What a client sees of the service -/

/-- The call that takes the step. -/
def ChatAction.call : ChatAction K → K
  | .read k _ | .close k | .advance k => k

namespace Chat

variable [DecidableEq K] {s s' : Chat K} {a : ChatAction K} {k : K}

/-- The other calls do not see it. -/
theorem others_of_step (h : s.step a = some s') {j : K} (hj : j ≠ a.call) :
    s'.pc j = s.pc j ∧ s'.written j = s.written j ∧ s'.read j = s.read j := by
  cases step_cases h with
  | read note hpc => exact ⟨Function.update_of_ne hj .., rfl, Function.update_of_ne hj ..⟩
  | write hpc => exact ⟨Function.update_of_ne hj .., Function.update_of_ne hj .., rfl⟩
  | close | lock | keep | skip | unlock => exact ⟨Function.update_of_ne hj .., rfl, rfl⟩

theorem pc_call_ne_finished (h : s.step a = some s') : s.pc a.call ≠ .finished := by
  cases step_cases h with
  | read note hpc | close hpc | lock hpc | keep hpc | write hpc | skip hpc | unlock hpc =>
    exact fun hfinished => nomatch hpc.symm.trans hfinished

theorem step_read {note : RouteNote} (h : s.step (.read k note) = some s') :
    s'.pc k ≠ .finished ∧ s'.written k = s.written k ∧ s'.read k = s.read k ++ [note] := by
  cases step_cases h with
  | read note hpc =>
    refine ⟨?_, rfl, Function.update_self ..⟩
    simp [goTo]

theorem step_close (h : s.step (.close k) = some s') :
    s'.written k = s.written k ∧ s'.read k = s.read k := by
  cases step_cases h with
  | close hpc => exact ⟨rfl, rfl⟩

theorem step_advance (h : s.step (.advance k) = some s') :
    s'.pc k ≠ .finished ∧ s.written k <+: s'.written k ∧ s'.read k = s.read k := by
  cases step_cases h with
  | write hpc =>
    refine ⟨by simp [goTo], ?_, rfl⟩
    simp [goTo, write]
  | lock | keep | skip | unlock => exact ⟨by simp [goTo], List.prefix_rfl, rfl⟩

end Chat

/-! ## The whole -/

namespace ChatSystem

variable [DecidableEq K] {notes : K → List RouteNote} {s s' : ChatSystem K} {k : K}

/-- What there is of one client, and of its call. -/
structure View where
  pc : Pc
  written : List RouteNote
  read : List RouteNote
  toSend : List RouteNote
  writesDone : Bool
  requests : List RouteNote
  printed : List RouteNote
  ended : Bool

def view (s : ChatSystem K) (j : K) : View :=
  ⟨s.chat.pc j, s.chat.written j, s.chat.read j, s.toSend j, s.writesDone j, s.requests j,
    s.printed j, s.ended j⟩

/-- What holds of a client with these notes. -/
structure View.Fits (notes : List RouteNote) (v : View) : Prop where
  notes : notes = v.read ++ (v.requests ++ v.toSend)
  printed : v.printed <+: v.written
  done : v.writesDone = true → v.toSend = []
  closed : v.pc = .finished → v.requests = [] ∧ v.writesDone = true
  ended : v.ended = true → v.pc = .finished ∧ v.printed = v.written

structure Inv (notes : K → List RouteNote) (s : ChatSystem K) : Prop where
  chat : s.chat.Inv
  fits : ∀ j, (s.view j).Fits (notes j)

theorem inv_init (notes : K → List RouteNote) : Inv notes (init notes) :=
  ⟨Chat.inv_init, fun _ => ⟨rfl, List.prefix_rfl, nofun, nofun, nofun⟩⟩

/-- A step that concerns one client. -/
theorem Inv.of_view (h : Inv notes s) (hchat : s'.chat.Inv) (k : K)
    (hother : ∀ j, j ≠ k → s'.view j = s.view j) (hk : (s'.view k).Fits (notes k)) :
    Inv notes s' := by
  refine ⟨hchat, fun j => ?_⟩
  by_cases hj : j = k
  · rw [hj]
    exact hk
  · rw [hother j hj]
    exact h.fits j

theorem view_of_chat_step {a : ChatAction K} {chat : Chat K} (h : s.chat.step a = some chat)
    {j : K} (hj : j ≠ a.call) : view { s with chat := chat } j = s.view j := by
  obtain ⟨hpc, hwritten, hread⟩ := Chat.others_of_step h hj
  simp only [view, hpc, hwritten, hread]

theorem inv_step {a : ChatSystemAction K} (h : Inv notes s) (hstep : s.step a = some s') :
    Inv notes s' := by
  cases a with
  | write k =>
    rw [step] at hstep
    split at hstep
    · cases hstep
    next note rest htoSend =>
    obtain rfl := Option.some.inj hstep
    have hk := h.fits k
    refine h.of_view h.chat k (fun j hj => by simp [view, hj]) ?_
    refine ⟨?_, hk.printed, fun hdone => ?_, fun hpc => ?_, hk.ended⟩
    · simpa [view, htoSend] using hk.notes
    · cases htoSend.symm.trans (hk.done hdone)
    · cases htoSend.symm.trans (hk.done (hk.closed hpc).2)
  | writesDone k =>
    obtain ⟨htoSend, rfl⟩ : s.toSend k = [] ∧ _ = s' := by simpa [step] using hstep
    have hk := h.fits k
    refine h.of_view h.chat k (fun j hj => by simp [view, hj]) ?_
    refine ⟨hk.notes, hk.printed, fun _ => htoSend, fun hpc => ?_, hk.ended⟩
    exact ⟨(hk.closed hpc).1, Function.update_self ..⟩
  | receive k =>
    rw [step] at hstep
    split at hstep
    · cases hstep
    next note rest hrequests =>
    obtain ⟨chat, hchat, rfl⟩ := Option.map_eq_some_iff.mp hstep
    obtain ⟨hpc, hwritten, hread⟩ := Chat.step_read hchat
    have hk := h.fits k
    refine h.of_view (Chat.inv_step h.chat hchat) k (fun j hj => ?_) ?_
    · simpa [view, hj] using view_of_chat_step hchat hj
    · refine ⟨?_, ?_, hk.done, fun hfinished => absurd hfinished hpc, fun hended => ?_⟩
      · simpa [view, hread, hrequests] using hk.notes
      · simpa [view, hwritten] using hk.printed
      · exact absurd (hk.ended hended).1 (Chat.pc_call_ne_finished hchat)
  | close k =>
    rw [step] at hstep
    split at hstep
    next hdone =>
      obtain ⟨chat, hchat, rfl⟩ := Option.map_eq_some_iff.mp hstep
      obtain ⟨hwritten, hread⟩ := Chat.step_close hchat
      have hk := h.fits k
      refine h.of_view (Chat.inv_step h.chat hchat) k (fun j hj => view_of_chat_step hchat hj) ?_
      refine ⟨?_, ?_, hk.done, fun _ => hdone, fun hended => ?_⟩
      · simpa [view, hread] using hk.notes
      · simpa [view, hwritten] using hk.printed
      · exact absurd (hk.ended hended).1 (Chat.pc_call_ne_finished hchat)
    · cases hstep
  | advance k =>
    obtain ⟨chat, hchat, rfl⟩ := Option.map_eq_some_iff.mp hstep
    obtain ⟨hpc, hwritten, hread⟩ := Chat.step_advance hchat
    have hk := h.fits k
    refine h.of_view (Chat.inv_step h.chat hchat) k (fun j hj => view_of_chat_step hchat hj) ?_
    refine ⟨?_, hk.printed.trans hwritten, hk.done, fun hfinished => absurd hfinished hpc,
      fun hended => ?_⟩
    · simpa [view, hread] using hk.notes
    · exact absurd (hk.ended hended).1 (Chat.pc_call_ne_finished hchat)
  | read k =>
    rw [step] at hstep
    split at hstep
    · cases hstep
    next note hnote =>
    obtain rfl := Option.some.inj hstep
    have hk := h.fits k
    refine h.of_view h.chat k (fun j hj => by simp [view, hj]) ?_
    refine ⟨hk.notes, ?_, hk.done, hk.closed, fun hended => ?_⟩
    · obtain ⟨hlt, rfl⟩ := List.getElem?_eq_some_iff.mp hnote
      have hprinted := List.concat_get_prefix hk.printed hlt
      simpa [view] using hprinted
    · have hall := (hk.ended hended).2
      simp only [view] at hall
      rw [hall, List.getElem?_length] at hnote
      cases hnote
  | readEnd k =>
    obtain ⟨⟨hpc, hprinted⟩, rfl⟩ :
        (s.chat.pc k = .finished ∧ s.printed k = s.chat.written k) ∧ _ = s' := by
      simpa [step] using hstep
    have hk := h.fits k
    refine h.of_view h.chat k (fun j hj => by simp [view, hj]) ?_
    exact ⟨hk.notes, hk.printed, hk.done, hk.closed, fun _ => ⟨hpc, hprinted⟩⟩

theorem run_inv {actions : List (ChatSystemAction K)}
    (hrun : run step (init notes) actions = some s) : Inv notes s :=
  run_invariant inv_step (inv_init notes) hrun

/-- When a client has printed all. -/
theorem Inv.printed (h : Inv notes s) (hended : s.ended k = true) :
    Chat.keptBy k s.chat.kept = notes k ∧ s.printed k = Chat.answers k [] s.chat.kept := by
  have hk := h.fits k
  obtain ⟨hpc, hprinted⟩ := hk.ended hended
  obtain ⟨hrequests, hdone⟩ := hk.closed hpc
  have hidle : (s.chat.pc k).idle = true := by
    simp only [view] at hpc
    rw [hpc]
    rfl
  refine ⟨?_, hprinted.trans (h.chat.written_of_idle hidle)⟩
  rw [hk.notes, hrequests, hk.done hdone]
  simp only [List.append_nil]
  exact (h.chat.read_of_idle hidle).symm

/-- The server has kept nothing of a client that has nothing to send. -/
theorem Inv.keptBy_eq_nil (h : Inv notes s) {j : K} (hj : notes j = []) :
    Chat.keptBy j s.chat.kept = [] := by
  have hread := (h.chat.fits j).read
  have hnotes := (h.fits j).notes
  rw [hj] at hnotes
  obtain ⟨hnil, -⟩ := List.append_eq_nil_iff.mp hnotes.symm
  simp only [view] at hnil
  rw [hnil] at hread
  exact (List.append_eq_nil_iff.mp hread.symm).1

/-- If all notes are from one client, they are the ones that are kept of it. -/
theorem kept_eq_map {kept : List (K × RouteNote)}
    (hother : ∀ j, j ≠ k → Chat.keptBy j kept = []) :
    kept = (Chat.keptBy k kept).map (Prod.mk k) := by
  have hall : ∀ x ∈ kept, x.1 = k := by
    intro x hx
    by_contra hne
    have hnil := hother x.1 hne
    rw [Chat.keptBy, List.map_eq_nil_iff, List.filter_eq_nil_iff] at hnil
    exact hnil x hx (decide_eq_true rfl)
  have hfilter : kept.filter (fun x => decide (x.1 = k)) = kept :=
    List.filter_eq_self.mpr fun x hx => decide_eq_true (hall x hx)
  rw [Chat.keptBy, hfilter, List.map_map]
  calc kept = kept.map id := (List.map_id kept).symm
    _ = _ := List.map_congr_left fun x hx => by rw [← hall x hx]; rfl

/-- The notes of `RouteChat` in `route_guide_client.cpp`. -/
def routeNotes : List RouteNote :=
  [⟨⟨0, 0⟩, "First message".toList⟩, ⟨⟨0, 1⟩, "Second message".toList⟩,
    ⟨⟨1, 0⟩, "Third message".toList⟩, ⟨⟨0, 0⟩, "Fourth message".toList⟩]

/-- **One line.** If the client of the example is the only one of a new server, then in every
interleaving it prints one line, with the first of its notes, which the server sends when it gets
the fourth one at the same place. -/
theorem run_alone {actions : List (ChatSystemAction K)}
    (hrun : run step (init notes) actions = some s) (hended : s.ended k = true)
    (hnotes : notes k = routeNotes) (hother : ∀ j, j ≠ k → notes j = []) :
    s.printed k = [⟨⟨0, 0⟩, "First message".toList⟩] := by
  have h := run_inv hrun
  obtain ⟨hkept, hprinted⟩ := h.printed hended
  rw [hprinted, kept_eq_map fun j hj => h.keptBy_eq_nil (hother j hj), hkept, hnotes]
  simp [routeNotes, Chat.answers, RouteNote.sameLocation]

end ChatSystem

end RouteGuide

end CppPlayground
