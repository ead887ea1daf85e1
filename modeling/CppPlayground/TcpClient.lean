import CppPlayground.Machine
import Mathlib.Data.Int.Notation

/-!
# The TCP client: a user thread and its receive thread

`TCPSocketClient` (`tcp_socket/client.cpp`) is used by one thread, which constructs it,
calls `connect` and `send_message`, and destroys it. A successful `connect` starts a
receive thread, after joining the one a former `connect` started. The two threads share
the flags `running_` and `connected_`.

A step is one operation of one thread: a system call, an access to a flag, a join or start
of the thread. What the system calls answer is part of the action, so every answer is
possible at any time. Threads start whenever they are asked to, and the callback
`on_message_received_` returns without using the client itself.

Four histories are carried along: the descriptors `socket` returned and the arguments of
`close`, and what was passed to `send` and to the callback.
-/

namespace CppPlayground

namespace TcpClient

universe u

/-! ## Data -/

/-- Who called `connect`. -/
inductive Caller (M : Type u) : Type u where
  | constructor : Caller M
  | user : Caller M
  | sendMessage (message : M) : Caller M
  deriving DecidableEq, Repr

/-- Where the user thread is; each constructor names what it does next. -/
inductive UserPc (M : Type u) : Type u where
  /-- between two calls -/
  | idle : UserPc M
  /-- `connect`: `socket_peer_ = socket(..)` -/
  | socket (caller : Caller M) : UserPc M
  /-- `connect`: `::connect(socket_peer_, ..)` -/
  | connect (caller : Caller M) : UserPc M
  /-- `connect`: `if (receive_thread_.joinable()) receive_thread_.join()` -/
  | join (caller : Caller M) : UserPc M
  /-- `connect`: `receive_thread_ = std::thread(..)` -/
  | startThread (caller : Caller M) : UserPc M
  /-- `connect`: `connected_ = true` -/
  | setConnected (caller : Caller M) : UserPc M
  /-- `send_message`: `if (!connected_)` -/
  | testConnected (message : M) : UserPc M
  /-- `send_message`: `send(socket_peer_, ..)` -/
  | send (message : M) : UserPc M
  /-- destructor: `running_ = false` -/
  | stopRunning : UserPc M
  /-- destructor: `receive_thread_.join()` -/
  | joinReceiver : UserPc M
  /-- destructor: `close(socket_peer_)` -/
  | close : UserPc M
  /-- the client is destroyed -/
  | gone : UserPc M
  /-- the destructor joined a thread that is not joinable: `std::terminate` -/
  | terminated : UserPc M
  deriving DecidableEq, Repr

/-- Where the receive thread is in `receive_message`. -/
inductive ReceiverPc (M : Type u) : Type u where
  /-- the loop's test of `running_` -/
  | test : ReceiverPc M
  /-- `select(..)` -/
  | select : ReceiverPc M
  /-- `recv(..)` -/
  | recv : ReceiverPc M
  /-- `connected_ = false` -/
  | clear : ReceiverPc M
  /-- `on_message_received_(..)` -/
  | callback (message : M) : ReceiverPc M
  /-- the function has returned -/
  | done : ReceiverPc M
  deriving DecidableEq, Repr

/-- The members of the class, the threads and the histories. -/
structure State (M : Type u) : Type u where
  /-- the descriptor `socket_peer_` -/
  socketPeer : ℤ
  /-- the flag `running_` -/
  running : Bool
  /-- the flag `connected_` -/
  connected : Bool
  /-- the user thread -/
  user : UserPc M
  /-- the thread `receive_thread_`; `none` if it is not joinable -/
  receiver : Option (ReceiverPc M)
  /-- history: the descriptors `socket` has returned -/
  opened : List ℤ
  /-- history: the arguments of `close` -/
  closed : List ℤ
  /-- history: descriptor and message of each `send` -/
  sent : List (ℤ × M)
  /-- history: the messages given to the callback -/
  received : List M
  deriving DecidableEq

/-- What `select` may answer. -/
inductive SelectResult : Type where
  /-- a negative number -/
  | failed : SelectResult
  /-- `socket_peer_` is readable -/
  | readable : SelectResult
  /-- a timeout, or another descriptor is readable -/
  | other : SelectResult
  deriving DecidableEq, Repr

/-- What may happen next. -/
inductive Action (M : Type u) : Type u where
  /-- the idle user calls `connect()` -/
  | connect : Action M
  /-- the idle user calls `send_message(..)` -/
  | sendMessage (message : M) : Action M
  /-- the idle user destroys the client -/
  | destroy : Action M
  /-- the user's call of `socket` returns `fd` -/
  | socketReturns (fd : ℤ) : Action M
  /-- the user's call of `::connect` returns 0, or something else -/
  | connectReturns (zero : Bool) : Action M
  /-- any other step of the user -/
  | user : Action M
  /-- the receive thread's call of `select` returns -/
  | selectReturns (result : SelectResult) : Action M
  /-- the receive thread's call of `recv` returns a message, or a number below 1 -/
  | recvReturns (message : Option M) : Action M
  /-- any other step of the receive thread -/
  | receiver : Action M
  deriving DecidableEq, Repr

variable {M : Type u}

/-! ## The operations -/

/-- The constructor when it calls `connect`; `socket_peer_` is not initialised. -/
def init (socketPeer : ℤ) : State M where
  socketPeer := socketPeer
  running := true
  connected := false
  user := .socket .constructor
  receiver := none
  opened := []
  closed := []
  sent := []
  received := []

/-- Where the caller goes on after `connect` has returned `true`. After `false` all
callers return: `send_message` does not send. -/
def Caller.resume : Caller M → UserPc M
  | constructor | user => .idle
  | sendMessage message => .send message

/-- The user's next step, other than a call with an answer from outside. -/
def userStep (s : State M) : Option (State M) :=
  match s.user with
  | .join caller =>
    match s.receiver with
    | none => some { s with user := .startThread caller }
    | some .done => some { s with receiver := none, user := .startThread caller }
    | some _ => none
  | .startThread caller =>
    some { s with receiver := some .test, user := .setConnected caller }
  | .setConnected caller => some { s with connected := true, user := caller.resume }
  | .testConnected message =>
    if s.connected then some { s with user := .send message }
    else some { s with user := .socket (.sendMessage message) }
  | .send message => some { s with sent := s.sent ++ [(s.socketPeer, message)], user := .idle }
  | .stopRunning => some { s with running := false, user := .joinReceiver }
  | .joinReceiver =>
    match s.receiver with
    | none => some { s with user := .terminated }
    | some .done => some { s with receiver := none, user := .close }
    | some _ => none
  | .close => some { s with closed := s.closed ++ [s.socketPeer], user := .gone }
  | _ => none

/-- The receive thread's next step, other than a call with an answer from outside. -/
def receiverStep (s : State M) : Option (State M) :=
  match s.receiver with
  | some .test =>
    if s.running then some { s with receiver := some .select }
    else some { s with receiver := some .done }
  | some .clear => some { s with connected := false, receiver := some .done }
  | some (.callback message) =>
    some { s with received := s.received ++ [message], receiver := some .test }
  | _ => none

/-- One step of the system; `none` if the action is not enabled. -/
def step (s : State M) : Action M → Option (State M)
  | .connect =>
    match s.user with
    | .idle => some { s with user := .socket .user }
    | _ => none
  | .sendMessage message =>
    match s.user with
    | .idle => some { s with user := .testConnected message }
    | _ => none
  | .destroy =>
    match s.user with
    | .idle => some { s with user := .stopRunning }
    | _ => none
  | .socketReturns fd =>
    match s.user with
    | .socket caller =>
      if fd < 0 then some { s with socketPeer := fd, user := .idle }
      else some { s with socketPeer := fd, opened := s.opened ++ [fd], user := .connect caller }
    | _ => none
  | .connectReturns zero =>
    match s.user with
    | .connect caller =>
      if zero then some { s with user := .join caller } else some { s with user := .idle }
    | _ => none
  | .user => userStep s
  | .selectReturns result =>
    match s.receiver with
    | some .select =>
      match result with
      | .failed => some { s with receiver := some .done }
      | .readable => some { s with receiver := some .recv }
      | .other => some { s with receiver := some .test }
    | _ => none
  | .recvReturns message =>
    match s.receiver with
    | some .recv =>
      match message with
      | none => some { s with receiver := some .clear }
      | some message => some { s with receiver := some (.callback message) }
    | _ => none
  | .receiver => receiverStep s

/-! ## What a step can do -/

/-- The transitions of the system, one constructor per outcome. -/
inductive Trans (s : State M) : Action M → State M → Prop where
  | callConnect (hu : s.user = .idle) : Trans s .connect { s with user := .socket .user }
  | callSendMessage {message : M} (hu : s.user = .idle) : Trans s (.sendMessage message)
      { s with user := .testConnected message }
  | callDestroy (hu : s.user = .idle) : Trans s .destroy { s with user := .stopRunning }
  | socketFailed {caller : Caller M} {fd : ℤ} (hu : s.user = .socket caller) (hfd : fd < 0) :
      Trans s (.socketReturns fd) { s with socketPeer := fd, user := .idle }
  | socketOk {caller : Caller M} {fd : ℤ} (hu : s.user = .socket caller) (hfd : ¬ fd < 0) :
      Trans s (.socketReturns fd)
      { s with socketPeer := fd, opened := s.opened ++ [fd], user := .connect caller }
  | connectFailed {caller : Caller M} (hu : s.user = .connect caller) :
      Trans s (.connectReturns false) { s with user := .idle }
  | connectOk {caller : Caller M} (hu : s.user = .connect caller) :
      Trans s (.connectReturns true) { s with user := .join caller }
  | joinNone {caller : Caller M} (hu : s.user = .join caller) (hr : s.receiver = none) :
      Trans s .user { s with user := .startThread caller }
  | join {caller : Caller M} (hu : s.user = .join caller) (hr : s.receiver = some .done) :
      Trans s .user { s with receiver := none, user := .startThread caller }
  | startThread {caller : Caller M} (hu : s.user = .startThread caller) :
      Trans s .user { s with receiver := some .test, user := .setConnected caller }
  | setConnected {caller : Caller M} (hu : s.user = .setConnected caller) :
      Trans s .user { s with connected := true, user := caller.resume }
  | useConnection {message : M} (hu : s.user = .testConnected message)
      (hc : s.connected = true) : Trans s .user { s with user := .send message }
  | reconnect {message : M} (hu : s.user = .testConnected message)
      (hc : s.connected = false) :
      Trans s .user { s with user := .socket (.sendMessage message) }
  | send {message : M} (hu : s.user = .send message) : Trans s .user
      { s with sent := s.sent ++ [(s.socketPeer, message)], user := .idle }
  | stopRunning (hu : s.user = .stopRunning) : Trans s .user
      { s with running := false, user := .joinReceiver }
  | terminate (hu : s.user = .joinReceiver) (hr : s.receiver = none) : Trans s .user
      { s with user := .terminated }
  | joinReceiver (hu : s.user = .joinReceiver) (hr : s.receiver = some .done) :
      Trans s .user { s with receiver := none, user := .close }
  | close (hu : s.user = .close) : Trans s .user
      { s with closed := s.closed ++ [s.socketPeer], user := .gone }
  | selectFailed (hr : s.receiver = some .select) : Trans s (.selectReturns .failed)
      { s with receiver := some .done }
  | selectReadable (hr : s.receiver = some .select) : Trans s (.selectReturns .readable)
      { s with receiver := some .recv }
  | selectOther (hr : s.receiver = some .select) : Trans s (.selectReturns .other)
      { s with receiver := some .test }
  | recvClosed (hr : s.receiver = some .recv) : Trans s (.recvReturns none)
      { s with receiver := some .clear }
  | recvMessage {message : M} (hr : s.receiver = some .recv) :
      Trans s (.recvReturns (some message)) { s with receiver := some (.callback message) }
  | loop (hr : s.receiver = some .test) (hrun : s.running = true) : Trans s .receiver
      { s with receiver := some .select }
  | stop (hr : s.receiver = some .test) (hrun : s.running = false) : Trans s .receiver
      { s with receiver := some .done }
  | clear (hr : s.receiver = some .clear) : Trans s .receiver
      { s with connected := false, receiver := some .done }
  | callback {message : M} (hr : s.receiver = some (.callback message)) : Trans s .receiver
      { s with received := s.received ++ [message], receiver := some .test }

variable {s s' : State M}

theorem userStep_trans (h : userStep s = some s') : Trans s .user s' := by
  unfold userStep at h
  split at h
  case h_1 hu =>
    split at h <;> cases h
    case h_1 hr => exact .joinNone hu hr
    case h_2 hr => exact .join hu hr
  case h_2 hu => cases h; exact .startThread hu
  case h_3 hu => cases h; exact .setConnected hu
  case h_4 hu =>
    split at h <;> cases h
    case isTrue hc => exact .useConnection hu hc
    case isFalse hc => exact .reconnect hu (by simpa using hc)
  case h_5 hu => cases h; exact .send hu
  case h_6 hu => cases h; exact .stopRunning hu
  case h_7 hu =>
    split at h <;> cases h
    case h_1 hr => exact .terminate hu hr
    case h_2 hr => exact .joinReceiver hu hr
  case h_8 hu => cases h; exact .close hu
  case h_9 => cases h

theorem receiverStep_trans (h : receiverStep s = some s') : Trans s .receiver s' := by
  unfold receiverStep at h
  split at h
  case h_1 hr =>
    split at h <;> cases h
    case isTrue hrun => exact .loop hr hrun
    case isFalse hrun => exact .stop hr (by simpa using hrun)
  case h_2 hr => cases h; exact .clear hr
  case h_3 hr => cases h; exact .callback hr
  case h_4 => cases h

theorem step_trans {a : Action M} (h : step s a = some s') : Trans s a s' := by
  cases a with
  | connect =>
    simp only [step] at h
    split at h <;> cases h
    case h_1 hu => exact .callConnect hu
  | sendMessage message =>
    simp only [step] at h
    split at h <;> cases h
    case h_1 hu => exact .callSendMessage hu
  | destroy =>
    simp only [step] at h
    split at h <;> cases h
    case h_1 hu => exact .callDestroy hu
  | socketReturns fd =>
    simp only [step] at h
    split at h
    case h_1 hu =>
      split at h <;> cases h
      case isTrue hfd => exact .socketFailed hu hfd
      case isFalse hfd => exact .socketOk hu hfd
    case h_2 => cases h
  | connectReturns zero =>
    simp only [step] at h
    split at h
    case h_1 hu =>
      cases zero <;> cases h
      · exact .connectFailed hu
      · exact .connectOk hu
    case h_2 => cases h
  | user => exact userStep_trans h
  | selectReturns result =>
    simp only [step] at h
    split at h
    case h_1 hr =>
      cases result <;> cases h
      · exact .selectFailed hr
      · exact .selectReadable hr
      · exact .selectOther hr
    case h_2 => cases h
  | recvReturns message =>
    simp only [step] at h
    split at h
    case h_1 hr =>
      cases message <;> cases h
      · exact .recvClosed hr
      · exact .recvMessage hr
    case h_2 => cases h
  | receiver => exact receiverStep_trans h

/-- The transitions are exactly the steps. -/
theorem step_iff_trans {a : Action M} : step s a = some s' ↔ Trans s a s' := by
  refine ⟨step_trans, fun h => ?_⟩
  cases h <;> simp_all [step, userStep, receiverStep]

end TcpClient

end CppPlayground
