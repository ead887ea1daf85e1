import CppPlayground.TcpClientConnected

/-!
# Destroying the TCP client

The destructor joins `receive_thread_` and closes `socket_peer_`, whatever happened
before. Both members may by then be in the wrong state.

* If no `connect` has succeeded there is no thread, and joining it terminates the program.
* `connect` overwrites `socket_peer_` without closing it. A descriptor of a failed
  `::connect`, or of a connection that was replaced by a new one, is never closed; and if
  the last call of `socket` fails, not even the one before is.

What is needed is one connection for the whole life of the client: `socket` succeeds once,
in its last call, and `::connect` then succeeds as well (`OneConnection`). A completed
history is clean exactly if it is of this kind (`destroyed_clean_iff`).
-/

namespace CppPlayground

namespace TcpClient

universe u

variable {M : Type u}

/-! ## The property and the condition -/

/-- The destructor has come to its end, in one way or the other. -/
def UserPc.ended : UserPc M → Bool
  | gone | terminated => true
  | _ => false

/-- The destructor did not join a thread that is not joinable, and when it is through,
each descriptor has been closed once for each time `socket` returned it. (While it is not
closed `socket` cannot return it again, so that is once.) -/
def Clean (s : State M) : Prop :=
  s.user ≠ .terminated ∧
    (s.user = .gone → ∀ fd ∈ s.opened, s.closed.count fd = s.opened.count fd)

/-- What the calls of `socket` returned. -/
def socketResults (as : List (Action M)) : List ℤ :=
  as.filterMap fun
    | .socketReturns fd => some fd
    | _ => none

/-- Of all calls of `socket` the last one succeeds and the others fail; and a call of
`::connect` succeeds. -/
def OneConnection (as : List (Action M)) : Prop :=
  (∃ failed fd, socketResults as = failed ++ [fd] ∧ (∀ f ∈ failed, f < 0) ∧ 0 ≤ fd) ∧
    .connectReturns true ∈ as

/-! ## What the members say about the past -/

/-- `connect` is replacing the thread: it has joined the former one, or is about to. -/
def UserPc.replacing : UserPc M → Bool
  | join _ | startThread _ => true
  | _ => false

/-- The destructor has joined the thread. -/
def UserPc.joined : UserPc M → Bool
  | close | gone => true
  | _ => false

/-- `connect` has a descriptor that it tries to connect. -/
def UserPc.dialling : UserPc M → Bool
  | connect _ => true
  | _ => false

/-- A receive thread has been asked for. -/
def threadWanted (s : State M) : Bool :=
  s.receiver.isSome || s.user.replacing || s.user.joined

/-- How the members and histories of the client reflect the actions so far. -/
structure Reflects (past : List (Action M)) (s : State M) : Prop where
  /-- the descriptors returned are the results that are not negative -/
  opened : s.opened = (socketResults past).filter (0 ≤ ·)
  /-- `socket_peer_` is the last result -/
  peer : ∀ fd, (socketResults past).getLast? = some fd → s.socketPeer = fd
  /-- there is a thread once a `::connect` has succeeded, until the destructor joins it -/
  thread : threadWanted s = true ↔ .connectReturns true ∈ past
  /-- only an open descriptor is connected -/
  connectable : s.user.dialling = true ∨ .connectReturns true ∈ past → s.opened ≠ []
  /-- nothing is closed before the destructor -/
  unclosed : s.user ≠ .gone → s.closed = []
  /-- the destructor closes `socket_peer_` -/
  closed : s.user = .gone → s.closed = [s.socketPeer]

variable {past : List (Action M)} {s s' : State M} {a : Action M}

theorem reflects_init (socketPeer : ℤ) : Reflects [] (init socketPeer : State M) where
  opened := rfl
  peer := nofun
  thread := by simp [threadWanted, init, UserPc.replacing, UserPc.joined]
  connectable := by simp [init, UserPc.dialling]
  unclosed := fun _ => rfl
  closed := nofun

/-- Neither an answer of `socket` nor a success of `::connect`. -/
def Action.silent : Action M → Bool
  | .socketReturns _ | .connectReturns true => false
  | _ => true

theorem socketResults_silent (ha : a.silent = true) :
    socketResults (past ++ [a]) = socketResults past := by
  cases a <;> simp_all [socketResults, Action.silent]

theorem socketResults_socketReturns (fd : ℤ) :
    socketResults (past ++ [.socketReturns fd]) = socketResults past ++ [fd] := by
  simp [socketResults]

theorem connected_silent (ha : a.silent = true) :
    .connectReturns true ∈ past ++ [a] ↔ .connectReturns true ∈ past := by
  have hne : Action.connectReturns true ≠ a := by
    rintro rfl
    cases ha
  simp [hne]

/-- A step with a silent action that does not touch the descriptors. -/
theorem Reflects.move (hs : Reflects past s) (ha : a.silent = true)
    (hthread : threadWanted s' = threadWanted s)
    (hdial : s'.user.dialling = true → s.user.dialling = true)
    (hsame : s'.opened = s.opened ∧ s'.socketPeer = s.socketPeer ∧ s'.closed = s.closed)
    (hgone : s'.user = .gone ↔ s.user = .gone) : Reflects (past ++ [a]) s' := by
  obtain ⟨hopened, hpeer, hclosed⟩ := hsame
  refine ⟨?_, ?_, ?_, ?_, fun hu => ?_, fun hu => ?_⟩
  · rw [hopened, socketResults_silent ha, hs.opened]
  · rw [socketResults_silent ha, hpeer]
    exact hs.peer
  · rw [hthread, connected_silent ha]
    exact hs.thread
  · rw [connected_silent ha, hopened]
    exact fun h => hs.connectable (h.imp_left hdial)
  · rw [hclosed]
    exact hs.unclosed fun h => hu (hgone.mpr h)
  · rw [hclosed, hpeer]
    exact hs.closed (hgone.mp hu)

/-- An answer of `socket`: it is the last one, and a descriptor if it is not negative. -/
theorem Reflects.socket (hs : Reflects past s) {caller : Caller M} (hu : s.user = .socket caller)
    (fd : ℤ) (user : UserPc M) (hthread : (user.replacing || user.joined) = false)
    (hdial : user.dialling = true → ¬ fd < 0) :
    Reflects (past ++ [.socketReturns fd])
      { s with socketPeer := fd, opened := s.opened ++ [fd].filter (0 ≤ ·), user := user } := by
  have hgone : user ≠ .gone := by
    rintro rfl
    cases hthread
  refine ⟨?_, ?_, ?_, ?_, fun _ => hs.unclosed (by simp [hu]), fun h => absurd h hgone⟩
  · rw [socketResults_socketReturns, List.filter_append, ← hs.opened]
  · rw [socketResults_socketReturns, List.getLast?_concat]
    exact fun _ h => Option.some.inj h
  · have hsame : threadWanted s = s.receiver.isSome := by
      simp [threadWanted, hu, UserPc.replacing, UserPc.joined]
    rw [threadWanted, Bool.or_assoc, hthread, Bool.or_false, ← hsame, hs.thread]
    simp
  · rintro (hd | hconn)
    · have hfd : 0 ≤ fd := by simpa using hdial hd
      simp [hfd]
    · have hne : s.opened ≠ [] := hs.connectable (.inr (by simpa using hconn))
      simp [hne]

theorem reflects_step (hs : Reflects past s) (h : step s a = some s') :
    Reflects (past ++ [a]) s' := by
  cases step_trans h with
  | callConnect hu | callSendMessage hu | callDestroy hu | useConnection hu | reconnect hu
  | send hu | stopRunning hu | terminate hu | connectFailed hu =>
    refine hs.move rfl ?_ nofun ⟨rfl, rfl, rfl⟩ (by simp [hu])
    simp [threadWanted, hu, UserPc.replacing, UserPc.joined]
  | selectFailed hr | selectReadable hr | selectOther hr | recvClosed hr | recvMessage hr
  | loop hr | stop hr | clear hr | callback hr =>
    refine hs.move rfl ?_ id ⟨rfl, rfl, rfl⟩ Iff.rfl
    simp [threadWanted, hr]
  | joinNone hu | join hu | startThread hu =>
    refine hs.move rfl ?_ nofun ⟨rfl, rfl, rfl⟩ (by simp [hu])
    simp [threadWanted, hu, UserPc.replacing]
  | @setConnected caller hu =>
    refine hs.move rfl ?_ ?_ ⟨rfl, rfl, rfl⟩ ?_ <;>
      cases caller <;>
      simp [threadWanted, hu, Caller.resume, UserPc.replacing, UserPc.joined, UserPc.dialling]
  | joinReceiver hu hr =>
    refine hs.move rfl ?_ nofun ⟨rfl, rfl, rfl⟩ (by simp [hu])
    simp [threadWanted, hr, UserPc.joined]
  | @socketFailed _ fd hu hfd =>
    have hnone : [fd].filter (0 ≤ ·) = [] := by simpa using hfd
    simpa only [hnone, List.append_nil] using hs.socket hu fd .idle rfl nofun
  | @socketOk caller fd hu hfd =>
    have hsome : [fd].filter (0 ≤ ·) = [fd] := by simpa using hfd
    simpa only [hsome] using hs.socket hu fd (.connect caller) rfl fun _ => hfd
  | connectOk hu =>
    refine ⟨?_, ?_, ?_, ?_, fun _ => hs.unclosed (by simp [hu]), nofun⟩
    · simpa [socketResults] using hs.opened
    · simpa [socketResults] using hs.peer
    · simp [threadWanted, UserPc.replacing]
    · exact fun _ => hs.connectable (.inl (by rw [hu]; rfl))
  | close hu =>
    refine ⟨?_, ?_, ?_, ?_, fun hne => absurd rfl hne, fun _ => ?_⟩
    · simpa [socketResults] using hs.opened
    · simpa [socketResults] using hs.peer
    · simpa [threadWanted, hu, UserPc.joined] using hs.thread
    · rintro (hd | hconn)
      · cases hd
      · exact hs.connectable (.inr (by simpa using hconn))
    · simp [hs.unclosed (by simp [hu])]

theorem reflects_run {socketPeer : ℤ} {as : List (Action M)}
    (hrun : Machine.run step (init socketPeer) as = some s) : Reflects as s := by
  refine Machine.run_invariant_past (I := Reflects) ?_ (reflects_init socketPeer) hrun
  intro past t a t' ht hstep
  exact reflects_step ht hstep

/-- There is no thread beside a destructor that has failed. -/
theorem terminated_alone_step (hs : s.user = .terminated → s.receiver = none)
    (h : step s a = some s') : s'.user = .terminated → s'.receiver = none := by
  cases step_trans h with
  | terminate _ hr => exact fun _ => hr
  | selectFailed hr | selectReadable hr | selectOther hr | recvClosed hr | recvMessage hr
  | loop hr | stop hr | clear hr | callback hr =>
    intro hu
    rw [hs hu] at hr
    cases hr
  | @setConnected caller => cases caller <;> nofun
  | callConnect | callSendMessage | callDestroy | socketFailed | socketOk | connectFailed
  | connectOk | joinNone | join | startThread | useConnection | reconnect | send
  | stopRunning | joinReceiver | close => nofun

theorem terminated_alone {socketPeer : ℤ} {as : List (Action M)}
    (hrun : Machine.run step (init socketPeer) as = some s) :
    s.user = .terminated → s.receiver = none := by
  refine Machine.run_invariant (I := fun t => t.user = .terminated → t.receiver = none) ?_
    (fun hu => absurd hu (by simp [init])) hrun
  intro t a t' ht hstep
  exact terminated_alone_step ht hstep

/-! ## Completed histories -/

/-- Nothing but the last result is a descriptor. -/
theorem filter_eq_last_iff {failed : List ℤ} {fd : ℤ} :
    (failed ++ [fd]).filter (0 ≤ ·) = [fd] ↔ (∀ f ∈ failed, f < 0) ∧ 0 ≤ fd := by
  constructor
  · intro h
    have hfd : 0 ≤ fd := by
      have hmem : fd ∈ (failed ++ [fd]).filter (0 ≤ ·) := by
        rw [h]
        exact List.mem_singleton_self fd
      exact of_decide_eq_true (List.mem_filter.mp hmem).2
    have hfailed : failed.filter (0 ≤ ·) = [] := by
      simpa [hfd, List.filter_append] using h
    exact ⟨by simpa [List.filter_eq_nil_iff] using hfailed, hfd⟩
  · rintro ⟨hfailed, hfd⟩
    have hnone : failed.filter (0 ≤ ·) = [] := by
      simpa [List.filter_eq_nil_iff] using hfailed
    simp [List.filter_append, hnone, hfd]

/-- One `close` is enough for one descriptor only. -/
theorem count_closed_iff {opened : List ℤ} {peer : ℤ} (hne : opened ≠ []) :
    (∀ fd ∈ opened, [peer].count fd = opened.count fd) ↔ opened = [peer] := by
  refine ⟨fun h => ?_, by rintro rfl; simp⟩
  have hall : ∀ fd ∈ opened, fd = peer := by
    intro fd hfd
    have hpos : 0 < [peer].count fd := h fd hfd ▸ List.count_pos_iff.mpr hfd
    exact List.mem_singleton.mp (List.count_pos_iff.mp hpos)
  obtain ⟨fd, hfd⟩ := List.exists_mem_of_ne_nil opened hne
  obtain rfl := hall fd hfd
  have hcount : opened.count fd = 1 := by simpa using (h fd hfd).symm
  have hlen : opened.count fd = opened.length :=
    List.count_eq_length.mpr fun x hx => (hall x hx).symm
  obtain ⟨x, rfl⟩ := List.length_eq_one_iff.mp (hlen ▸ hcount)
  rw [hall x (List.mem_singleton_self x)]

/-- A client that ends in the destructor's last step is clean exactly if there was one
connection. -/
theorem Reflects.clean_gone (hs : Reflects past s) (hu : s.user = .gone) :
    Clean s ↔ OneConnection past := by
  have hconn : .connectReturns true ∈ past :=
    hs.thread.mp (by simp [threadWanted, hu, UserPc.joined])
  have hopened : s.opened ≠ [] := hs.connectable (.inr hconn)
  have hclean : Clean s ↔ s.opened = [s.socketPeer] := by
    rw [← count_closed_iff hopened, ← hs.closed hu, Clean]
    simp [hu]
  have hresults : socketResults past ≠ [] := by
    intro hnil
    rw [hs.opened, hnil] at hopened
    exact hopened rfl
  obtain ⟨failed, fd, hsplit⟩ : ∃ failed fd, socketResults past = failed ++ [fd] :=
    ⟨_, _, (List.dropLast_append_getLast hresults).symm⟩
  have hpeer : s.socketPeer = fd := hs.peer fd (by rw [hsplit, List.getLast?_concat])
  rw [hclean, hs.opened, hpeer, hsplit, filter_eq_last_iff, OneConnection, hsplit]
  constructor
  · rintro ⟨hfailed, hfd⟩
    exact ⟨⟨failed, fd, rfl, hfailed, hfd⟩, hconn⟩
  · rintro ⟨⟨failed', fd', heq, hfailed, hfd⟩, -⟩
    obtain ⟨rfl, hfd'⟩ := List.append_inj' heq rfl
    obtain rfl := List.singleton_inj.mp hfd'
    exact ⟨hfailed, hfd⟩

/-- A client that ends in `std::terminate` never had a connection. -/
theorem Reflects.not_oneConnection (hs : Reflects past s) (hu : s.user = .terminated)
    (hr : s.receiver = none) : ¬ OneConnection past := by
  rintro ⟨-, hconn⟩
  have hthread := hs.thread.mpr hconn
  simp [threadWanted, hu, hr, UserPc.replacing, UserPc.joined] at hthread

/-- **The destructor is clean after one connection, and only then**: for every history of
the client up to the end of its destructor, no thread that is not joinable was joined and
every descriptor is closed as often as it was returned, exactly if `socket` succeeded in
its last call only and a `::connect` succeeded. -/
theorem destroyed_clean_iff (socketPeer : ℤ) {as : List (Action M)} {s : State M}
    (hrun : Machine.run step (init socketPeer) as = some s) (hend : s.user.ended = true) :
    Clean s ↔ OneConnection as := by
  have hs := reflects_run hrun
  cases hu : s.user with
  | gone => exact hs.clean_gone hu
  | terminated =>
    have hnot := hs.not_oneConnection hu (terminated_alone hrun hu)
    exact ⟨fun hclean => absurd hu hclean.1, fun hone => absurd hone hnot⟩
  | _ =>
    rw [hu] at hend
    cases hend

/-- The constructor's `socket` fails; `send_message` connects and sends; the client is
destroyed. -/
def lateConnection : List (Action ℕ) :=
  [.socketReturns (-1), .sendMessage 7, .user, .socketReturns 3, .connectReturns true, .user,
    .user, .user, .user, .destroy, .user, .receiver, .user, .user]

theorem destroyed_clean_lateConnection :
    ∃ s, Machine.run step (init 0) lateConnection = some s ∧ s.user = .gone ∧
      OneConnection lateConnection ∧ Clean s := by
  have hone : OneConnection lateConnection := ⟨⟨[-1], 3, rfl, by simp, by simp⟩, by decide⟩
  exact ⟨_, rfl, rfl, hone, (destroyed_clean_iff 0 rfl rfl).mpr hone⟩

/-! ## Unclean ends -/

/-- The server is not there, and the client is destroyed. -/
def refused : List (Action ℕ) :=
  [.socketReturns 3, .connectReturns false, .destroy, .user, .user]

/-- The peer closes the connection, `send_message` connects anew, and the client is
destroyed. -/
def reconnected : List (Action ℕ) :=
  [.socketReturns 3, .connectReturns true, .user, .user, .user, .receiver,
    .selectReturns .readable, .recvReturns none, .receiver, .sendMessage 7, .user,
    .socketReturns 4, .connectReturns true, .user, .user, .user, .user, .destroy, .user,
    .receiver, .user, .user]

/-- **Two unclean ends**: the destructor joins a thread that was never started, and a
replaced descriptor stays open. -/
theorem unclean_ends :
    (∃ s, Machine.run step (init 0) refused = some s ∧ s.user = .terminated ∧
      s.receiver = none ∧ ¬ Clean s) ∧
    (∃ s, Machine.run step (init 0) reconnected = some s ∧ s.user = .gone ∧
      s.opened = [3, 4] ∧ s.closed = [4] ∧ ¬ Clean s) := by
  constructor
  · exact ⟨_, rfl, rfl, rfl, fun h => h.1 rfl⟩
  · exact ⟨_, rfl, rfl, rfl, rfl, fun h => absurd (h.2 rfl 3 (by decide)) (by decide)⟩

end TcpClient

end CppPlayground
