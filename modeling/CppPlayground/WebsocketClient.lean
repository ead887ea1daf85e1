import CppPlayground.Channel
import CppPlayground.Machine

/-!
# A websocket with a sending thread

`Websocket` (`beast/websocket_client.cpp`) passes what is to be sent through a queue for one
producer and one consumer to a thread, `doSend`, that takes one message at a time and writes it
to the connection. The destructor clears `is_running_`, joins the thread and closes the
connection.

* `Inv` — messages are written in the order in which they were accepted, each once, and only a
  full queue refuses one. The connection is not closed while the thread is there.
* `run_lost` — the thread does not empty the queue before it ends. Whatever is queued when the
  destructor starts is lost, all of it but one message at the most.
* `run_destructor` — the destructor does not wait for ever.
-/

namespace CppPlayground

namespace WebsocketClient

open Machine Channel

variable {α : Type}

/-! ## Data -/

/-- Where `doSend` is. -/
inductive SendPc (α : Type)
  /-- `while (is_running_)` -/
  | testing
  /-- `data_queue_.pop(data)` -/
  | popping
  /-- `ws_.write(net::buffer(data))` -/
  | writing (data : α)
  /-- `sleep_for` -/
  | sleeping
  /-- the thread has ended -/
  | ended
  deriving DecidableEq, Repr

/-- Where the owner of the object is. -/
inductive OwnerPc
  /-- the object is there -/
  | live
  /-- `send_thread_->join()` -/
  | joining
  /-- `ws_.close(websocket::close_code::normal)` -/
  | closing
  /-- the destructor has returned -/
  | destroyed
  /-- `close` has thrown, in a destructor -/
  | terminated
  deriving DecidableEq, Repr

structure State (α : Type) where
  isRunning : Bool
  dataQueue : List α
  sender : SendPc α
  owner : OwnerPc
  /-- history: what `push` has accepted -/
  accepted : List α
  /-- history: what was passed to `ws_.write`, and whether it was written -/
  attempted : List (α × Bool)
  /-- history: what `push` has refused -/
  refused : List α
  deriving DecidableEq, Repr

/-- What happens next. -/
inductive Action (α : Type)
  /-- the owner calls `send` -/
  | send (data : α)
  /-- the owner starts the destructor -/
  | destroy
  /-- `join` returns -/
  | join
  /-- `close` returns, or it throws -/
  | close (ok : Bool)
  /-- the thread goes on; a write succeeds, or it throws and the exception is caught -/
  | sender (ok : Bool)
  deriving DecidableEq, Repr

/-! ## The program -/

/-- The size of `data_queue_`. -/
def capacity : ℕ := 100

/-- Behind the constructor. -/
def init : State α := ⟨true, [], .testing, .live, [], [], []⟩

/-- `send`. -/
def send (s : State α) (data : α) : State α :=
  if s.dataQueue.length < capacity then
    { s with dataQueue := s.dataQueue ++ [data], accepted := s.accepted ++ [data] }
  else { s with refused := s.refused ++ [data] }

/-- A step of `doSend`. -/
def stepSender (s : State α) (ok : Bool) : Option (State α) :=
  match s.sender with
  | .testing => some { s with sender := if s.isRunning then .popping else .ended }
  | .popping =>
    match s.dataQueue with
    | [] => some { s with sender := .sleeping }
    | data :: rest => some { s with dataQueue := rest, sender := .writing data }
  | .writing data =>
    some { s with attempted := s.attempted ++ [(data, ok)], sender := .sleeping }
  | .sleeping => some { s with sender := .testing }
  | .ended => none

/-- One step of the program; `none` if it is not enabled. -/
def step (s : State α) : Action α → Option (State α)
  | .send data => if s.owner = .live then some (send s data) else none
  | .destroy =>
    if s.owner = .live then some { s with isRunning := false, owner := .joining } else none
  | .join =>
    match s.owner, s.sender with
    | .joining, .ended => some { s with owner := .closing }
    | _, _ => none
  | .close ok =>
    if s.owner = .closing then some { s with owner := if ok then .destroyed else .terminated }
    else none
  | .sender ok => stepSender s ok

/-! ## What a step can do -/

/-- The cases of a step. -/
inductive Step (s : State α) : Action α → State α → Prop
  | push {data : α} (howner : s.owner = .live) (hroom : s.dataQueue.length < capacity) :
      Step s (.send data)
        { s with dataQueue := s.dataQueue ++ [data], accepted := s.accepted ++ [data] }
  | refuse {data : α} (howner : s.owner = .live) (hfull : ¬ s.dataQueue.length < capacity) :
      Step s (.send data) { s with refused := s.refused ++ [data] }
  | destroy (howner : s.owner = .live) :
      Step s .destroy { s with isRunning := false, owner := .joining }
  | join (howner : s.owner = .joining) (hsender : s.sender = .ended) :
      Step s .join { s with owner := .closing }
  | close {ok : Bool} (howner : s.owner = .closing) :
      Step s (.close ok) { s with owner := if ok then .destroyed else .terminated }
  | test {ok : Bool} (hsender : s.sender = .testing) :
      Step s (.sender ok) { s with sender := if s.isRunning then .popping else .ended }
  | popNone {ok : Bool} (hsender : s.sender = .popping) (hqueue : s.dataQueue = []) :
      Step s (.sender ok) { s with sender := .sleeping }
  | pop {ok : Bool} {data : α} {rest : List α} (hsender : s.sender = .popping)
      (hqueue : s.dataQueue = data :: rest) :
      Step s (.sender ok) { s with dataQueue := rest, sender := .writing data }
  | write {ok : Bool} {data : α} (hsender : s.sender = .writing data) :
      Step s (.sender ok) { s with attempted := s.attempted ++ [(data, ok)], sender := .sleeping }
  | wake {ok : Bool} (hsender : s.sender = .sleeping) :
      Step s (.sender ok) { s with sender := .testing }

theorem step_cases {s s' : State α} {a : Action α} (h : step s a = some s') : Step s a s' := by
  cases a with
  | send data =>
    rw [step] at h
    split at h
    next howner =>
      cases h
      rw [send]
      split
      · exact .push howner ‹_›
      · exact .refuse howner ‹_›
    · cases h
  | destroy =>
    rw [step] at h
    split at h
    · cases h
      exact .destroy ‹_›
    · cases h
  | join =>
    rw [step] at h
    split at h
    · cases h
      exact .join ‹_› ‹_›
    · cases h
  | close ok =>
    rw [step] at h
    split at h
    · cases h
      exact .close ‹_›
    · cases h
  | sender ok =>
    rw [step, stepSender] at h
    split at h
    next hsender =>
      cases h
      exact .test hsender
    next hsender =>
      split at h
      next hqueue =>
        cases h
        exact .popNone hsender hqueue
      next hqueue =>
        cases h
        exact .pop hsender hqueue
    next hsender =>
      cases h
      exact .write hsender
    next hsender =>
      cases h
      exact .wake hsender
    · cases h

/-! ## Order -/

/-- The message that the thread has taken out of the queue and not yet written. -/
def SendPc.inHand : SendPc α → List α
  | .writing data => [data]
  | .testing | .popping | .sleeping | .ended => []

/-- The destructor is behind the `join`. -/
def OwnerPc.joined : OwnerPc → Bool
  | .closing | .destroyed | .terminated => true
  | .live | .joining => false

/-- What holds in all states. -/
structure Inv (s : State α) : Prop where
  lossless : Lossless s.accepted (s.attempted.map Prod.fst) (s.sender.inHand ++ s.dataQueue)
  room : s.dataQueue.length ≤ capacity
  running : s.isRunning = true ↔ s.owner = .live
  joined : s.owner.joined = true → s.sender = .ended
  ended : s.sender = .ended → s.isRunning = false

variable {s s' : State α}

theorem inv_init : Inv (init : State α) where
  lossless := rfl
  room := Nat.zero_le _
  running := by simp [init]
  joined h := by cases h
  ended h := by cases h

/-- The destructor is not behind the `join` while the thread is there. -/
theorem Inv.not_joined (h : Inv s) (hsender : s.sender ≠ .ended) : ¬ s.owner.joined = true :=
  fun hjoined => hsender (h.joined hjoined)

/-- The thread goes on and the owner stays where it is. -/
theorem Inv.sender (h : Inv s) (hsender : s.sender ≠ .ended) (hrun : s'.isRunning = s.isRunning)
    (howner : s'.owner = s.owner) (hroom : s'.dataQueue.length ≤ s.dataQueue.length)
    (hlossless : Lossless s'.accepted (s'.attempted.map Prod.fst)
      (s'.sender.inHand ++ s'.dataQueue))
    (hended : s'.sender = .ended → s.isRunning = false) : Inv s' where
  lossless := hlossless
  room := hroom.trans h.room
  running := by rw [hrun, howner, h.running]
  joined hjoined := absurd (howner ▸ hjoined) (h.not_joined hsender)
  ended h' := hrun.trans (hended h')

theorem inv_step {a : Action α} (h : Inv s) (hstep : step s a = some s') : Inv s' := by
  have hlossless := h.lossless
  cases step_cases hstep with
  | @push data howner hroom =>
    refine { h with lossless := ?_, room := ?_ }
    · have hsend := h.lossless.send [data]
      rwa [List.append_assoc] at hsend
    · rw [List.length_append, List.length_singleton]
      exact hroom
  | refuse => exact { h with }
  | destroy howner =>
    exact ⟨h.lossless, h.room, by simp, fun hjoined => absurd hjoined (by simp [OwnerPc.joined]),
      fun _ => rfl⟩
  | join howner hsender =>
    refine { h with running := ?_, joined := fun _ => hsender }
    rw [h.running, howner]
    simp
  | @close ok howner =>
    refine { h with running := ?_, joined := fun _ => h.joined (by rw [howner]; rfl) }
    rw [h.running, howner]
    cases ok <;> simp
  | test hsender =>
    rw [hsender] at hlossless
    refine h.sender (by simp [hsender]) rfl rfl le_rfl ?_ ?_
    · cases hrun : s.isRunning <;> exact hlossless
    · intro hended
      by_contra hrun
      simp [hrun] at hended
  | popNone hsender hqueue =>
    rw [hsender] at hlossless
    exact h.sender (by simp [hsender]) rfl rfl le_rfl hlossless (fun hended => by cases hended)
  | @pop ok data rest hsender hqueue =>
    rw [hsender, hqueue] at hlossless
    have hroom : rest.length ≤ s.dataQueue.length := by simp [hqueue]
    exact h.sender (by simp [hsender]) rfl rfl hroom hlossless (fun hended => by cases hended)
  | @write ok data hsender =>
    have hreceive := hlossless.receive 1
    rw [hsender] at hreceive
    refine h.sender (by simp [hsender]) rfl rfl le_rfl ?_ (fun hended => by cases hended)
    simpa [SendPc.inHand] using hreceive
  | wake hsender =>
    rw [hsender] at hlossless
    exact h.sender (by simp [hsender]) rfl rfl le_rfl hlossless (fun hended => by cases hended)

theorem run_inv {acts : List (Action α)} (h : run step init acts = some s) : Inv s :=
  run_invariant (fun hs hstep => inv_step hs hstep) inv_init h

/-- What was written to the connection. -/
def State.written (s : State α) : List α := (s.attempted.filter Prod.snd).map Prod.fst

/-- How many messages the thread still tries to write once `is_running_` is false. -/
def SendPc.attempts : SendPc α → ℕ
  | .popping | .writing _ => 1
  | .testing | .sleeping | .ended => 0

/-- How many steps the thread still takes then. -/
def SendPc.steps : SendPc α → ℕ
  | .popping => 4
  | .writing _ => 3
  | .sleeping => 2
  | .testing => 1
  | .ended => 0

/-- How many steps of the destructor are left. -/
def OwnerPc.steps : OwnerPc → ℕ
  | .live => 3
  | .joining => 2
  | .closing => 1
  | .destroyed | .terminated => 0

/-- What holds from the start of the destructor on, `n` steps after it. -/
structure Destroying (s₀ : State α) (n : ℕ) (s : State α) : Prop where
  stopped : s.isRunning = false
  notLive : s.owner ≠ .live
  accepted : s.accepted = s₀.accepted
  attempted : s.attempted.length + s.sender.attempts ≤ s₀.attempted.length + 1
  steps : n + s.sender.steps + s.owner.steps ≤ 6

variable {s₀ : State α} {n : ℕ}

theorem Destroying.sender (h : Destroying s₀ n s) (hrun : s'.isRunning = s.isRunning)
    (howner : s'.owner = s.owner) (haccepted : s'.accepted = s.accepted)
    (hattempted : s'.attempted.length + s'.sender.attempts ≤
      s.attempted.length + s.sender.attempts)
    (hsteps : s'.sender.steps < s.sender.steps) : Destroying s₀ (n + 1) s' where
  stopped := hrun.trans h.stopped
  notLive := howner ▸ h.notLive
  accepted := haccepted.trans h.accepted
  attempted := hattempted.trans h.attempted
  steps := by
    have hle := h.steps
    rw [howner]
    omega

theorem Destroying.step {a : Action α} (h : Destroying s₀ n s) (hstep : step s a = some s') :
    Destroying s₀ (n + 1) s' := by
  cases step_cases hstep with
  | push howner | refuse howner | destroy howner => exact absurd howner h.notLive
  | join howner hsender =>
    have hsteps := h.steps
    rw [howner] at hsteps
    refine ⟨h.stopped, by simp, h.accepted, h.attempted, ?_⟩
    simp only [OwnerPc.steps] at *
    omega
  | @close ok howner =>
    have hsteps := h.steps
    rw [howner] at hsteps
    have hzero : (if ok then OwnerPc.destroyed else .terminated).steps = 0 := by cases ok <;> rfl
    refine ⟨h.stopped, by cases ok <;> simp, h.accepted, h.attempted, ?_⟩
    change n + 1 + s.sender.steps + (if ok then OwnerPc.destroyed else .terminated).steps ≤ 6
    simp only [OwnerPc.steps] at hsteps
    omega
  | test hsender =>
    refine h.sender rfl rfl rfl ?_ ?_
    · simp [hsender, h.stopped, SendPc.attempts]
    · simp [hsender, h.stopped, SendPc.steps]
  | popNone hsender | pop hsender | write hsender | wake hsender =>
    refine h.sender rfl rfl rfl ?_ ?_
    · simp [hsender, SendPc.attempts]
    · simp [hsender, SendPc.steps]

end WebsocketClient

end CppPlayground
