import CppPlayground.TcpClient

/-!
# Is `connected_` true?

`send_message` trusts `connected_`: it reconnects only when the flag is clear. So whenever
no `connect` is under way and the receive thread has finished, the flag should be clear
(`Truthful`). There are two ways for it not to be.

* The receive thread finishes after a failed `select`, which does not clear the flag.
* The receive thread finds the connection closed and clears the flag *before* `connect`,
  which has just started it, sets the flag.

If neither happens, the flag is truthful in all states (`connected_truthful`); each of them
leads to a state where it is not (`disorder_lies`). A failed `select` does no harm while
`connect` is already waiting to join the thread, or in the destructor.
-/

namespace CppPlayground

namespace TcpClient

universe u

variable {M : Type u}

/-! ## The property and the condition -/

/-- A call of `connect` is in progress. -/
def UserPc.connecting : UserPc M → Bool
  | socket _ | connect _ | join _ | startThread _ | setConnected _ => true
  | _ => false

/-- The destructor has begun. -/
def UserPc.destroying : UserPc M → Bool
  | stopRunning | joinReceiver | close | gone | terminated => true
  | _ => false

/-- `connect` waits for the former receive thread. -/
def UserPc.joining : UserPc M → Bool
  | join _ => true
  | _ => false

/-- `connect` has started the receive thread and not yet set `connected_`. -/
def UserPc.publishing : UserPc M → Bool
  | setConnected _ => true
  | _ => false

/-- Outside `connect` and before the destructor, the flag is clear once the receive thread
has finished. -/
def Truthful (s : State M) : Prop :=
  s.user.connecting = false → s.user.destroying = false → s.receiver = some .done →
    s.connected = false

/-- Neither mishap: `select` does not fail, unless the thread is being waited for anyway,
and `connected_` is not cleared between the start of the thread and the assignment in
`connect`. -/
def InOrder (s : State M) : Action M → Prop
  | .selectReturns .failed => s.user.joining = true ∨ s.user.destroying = true
  | .receiver => s.receiver = some .clear → s.user.publishing = false
  | _ => True

instance decidableInOrder [DecidableEq M] (s : State M) : ∀ a, Decidable (InOrder s a)
  | .selectReturns .failed => inferInstanceAs (Decidable (_ ∨ _))
  | .receiver => inferInstanceAs (Decidable (_ → _))
  | .selectReturns .readable | .selectReturns .other | .connect | .sendMessage _ | .destroy
  | .socketReturns _ | .connectReturns _ | .user | .recvReturns _ => isTrue trivial

instance decidableTruthful [DecidableEq M] (s : State M) : Decidable (Truthful s) :=
  inferInstanceAs (Decidable (_ → _ → _ → _))

/-! ## The invariant -/

/-- What a run keeps if it is in order. -/
structure Inv (s : State M) : Prop where
  /-- only the destructor clears `running_` -/
  running : s.user.destroying = false → s.running = true
  /-- while `connect` is about to set the flag, its receive thread is alive -/
  alive : s.user.publishing = true → s.receiver ≠ some .done
  /-- the flag is clear after the receive thread, or the thread is being waited for -/
  truthful : s.user.destroying = false → s.receiver = some .done →
    s.connected = false ∨ s.user.joining = true

variable {s s' : State M} {a : Action M}

theorem inv_init (socketPeer : ℤ) : Inv (init socketPeer : State M) where
  running := fun _ => rfl
  alive := nofun
  truthful := nofun

/-- A step of the user between two places that have nothing to do with the threads. -/
theorem Inv.moveUser (hs : Inv s) (hd : s.user.destroying = false)
    (hj : s.user.joining = false) (hp : s'.user.publishing = false)
    (hsame : s'.running = s.running ∧ s'.connected = s.connected ∧ s'.receiver = s.receiver) :
    Inv s' := by
  obtain ⟨hrun, hconn, hrec⟩ := hsame
  refine ⟨fun _ => hrun.trans (hs.running hd), fun hp' => ?_, fun _ hdone => .inl ?_⟩
  · rw [hp] at hp'
    cases hp'
  · rw [hrec] at hdone
    rw [hconn]
    refine (hs.truthful hd hdone).resolve_right fun hj' => ?_
    rw [hj] at hj'
    cases hj'

/-- A step of the receive thread that does not end it. -/
theorem Inv.moveReceiver (hs : Inv s) (hsame : s'.running = s.running ∧ s'.user = s.user)
    (hr : s'.receiver ≠ some .done) : Inv s' := by
  obtain ⟨hrun, huser⟩ := hsame
  refine ⟨fun hd => ?_, fun _ => hr, fun _ hdone => absurd hdone hr⟩
  rw [huser] at hd
  exact hrun.trans (hs.running hd)

/-- Once the destructor has begun there is nothing left to keep. -/
theorem inv_of_destroying (hd : s.user.destroying = true) : Inv s := by
  have hp : s.user.publishing = false := by
    cases hu : s.user <;> simp_all [UserPc.destroying, UserPc.publishing]
  exact ⟨by simp [hd], by simp [hp], by simp [hd]⟩

/-- A step that ends the receive thread is fine if it leaves the flag clear, or while the
thread is being waited for. -/
theorem Inv.finish (hs : Inv s) (hp : s.user.publishing = false) {connected : Bool}
    (hc : connected = false ∨ s.user.joining = true) :
    Inv { s with connected := connected, receiver := some .done } where
  running := hs.running
  alive := fun hp' => by
    rw [show s.user.publishing = true from hp'] at hp
    cases hp
  truthful := fun _ _ => hc

theorem inv_step (hs : Inv s) (hok : InOrder s a) (h : step s a = some s') : Inv s' := by
  cases step_trans h with
  | callConnect hu | callSendMessage hu | socketFailed hu | socketOk hu | connectFailed hu
  | connectOk hu | useConnection hu | reconnect hu | send hu =>
    exact hs.moveUser (by rw [hu]; rfl) (by rw [hu]; rfl) rfl ⟨rfl, rfl, rfl⟩
  | callDestroy | stopRunning | terminate | joinReceiver | close =>
    exact inv_of_destroying rfl
  | selectReadable | selectOther | recvClosed | recvMessage | loop | callback =>
    exact hs.moveReceiver ⟨rfl, rfl⟩ nofun
  | joinNone hu hr =>
    exact ⟨fun _ => hs.running (by rw [hu]; rfl), nofun, fun _ hdone => by simp [hr] at hdone⟩
  | join hu hr => exact ⟨fun _ => hs.running (by rw [hu]; rfl), nofun, nofun⟩
  | startThread hu => exact ⟨fun _ => hs.running (by rw [hu]; rfl), nofun, nofun⟩
  | @setConnected caller hu =>
    have halive := hs.alive (by rw [hu]; rfl)
    exact ⟨fun _ => hs.running (by rw [hu]; rfl), fun _ => halive,
      fun _ hdone => absurd hdone halive⟩
  | selectFailed hr =>
    rcases hok with hj | hd
    · have hp : s.user.publishing = false := by
        cases hu : s.user <;> simp_all [UserPc.joining, UserPc.publishing]
      exact hs.finish hp (.inr hj)
    · exact inv_of_destroying hd
  | stop hr hrun =>
    -- the loop is left only in the destructor
    refine inv_of_destroying ?_
    cases hd : s.user.destroying with
    | false => exact absurd ((hs.running hd).symm.trans hrun) nofun
    | true => rfl
  | clear hr => exact hs.finish (hok hr) (.inl rfl)

theorem inv_run {socketPeer : ℤ} {as : List (Action M)}
    (hok : Machine.Along step InOrder (init socketPeer) as)
    (hrun : Machine.run step (init socketPeer) as = some s) : Inv s := by
  refine Machine.run_invariant_along (I := Inv) ?_ (inv_init socketPeer) hok hrun
  intro t a t' ht hta hstep
  exact inv_step ht hta hstep

theorem Inv.isTruthful (hs : Inv s) : Truthful s := by
  intro hc hd hdone
  refine (hs.truthful hd hdone).resolve_right fun hj => ?_
  cases hu : s.user <;> simp_all [UserPc.joining, UserPc.connecting]

/-- **The flag is truthful in orderly runs**: in every run in which neither mishap occurs,
`connected_` is clear once the receive thread has finished, outside `connect` and before
the destructor; and a `send_message` that looks at it then goes on to reconnect. -/
theorem connected_truthful (socketPeer : ℤ) {as : List (Action M)} {s : State M}
    (hok : Machine.Along step InOrder (init socketPeer) as)
    (hrun : Machine.run step (init socketPeer) as = some s) :
    Truthful s ∧
    (s.receiver = some .done → ∀ message s', s.user = .testConnected message →
      step s .user = some s' → s'.user = .socket (.sendMessage message)) := by
  have htruth := (inv_run hok hrun).isTruthful
  refine ⟨htruth, fun hdone message s' hu hstep => ?_⟩
  have hc : s.connected = false := htruth (by rw [hu]; rfl) (by rw [hu]; rfl) hdone
  simp only [step, userStep, hu, hc] at hstep
  cases hstep
  rfl

/-- The client connects, receives a message, is closed by the peer, and the user sends. -/
def closedThenSend : List (Action ℕ) :=
  [.socketReturns 3, .connectReturns true, .user, .user, .user, .receiver,
    .selectReturns .readable, .recvReturns (some 5), .receiver, .receiver,
    .selectReturns .readable, .recvReturns none, .receiver, .sendMessage 7]

theorem connected_truthful_closedThenSend :
    Machine.Along step InOrder (init 0) closedThenSend ∧
    ∃ s, Machine.run step (init 0) closedThenSend = some s ∧ s.receiver = some .done ∧
      s.user = .testConnected 7 ∧ Truthful s := by
  have hok : Machine.Along step InOrder (init 0) closedThenSend := by decide
  exact ⟨hok, _, rfl, rfl, rfl, (connected_truthful 0 hok rfl).1⟩

/-! ## The two mishaps -/

/-- The peer closes the connection before the constructor's `connect` sets the flag. -/
def lostUpdate : List (Action ℕ) :=
  [.socketReturns 3, .connectReturns true, .user, .user, .receiver,
    .selectReturns .readable, .recvReturns none, .receiver, .user]

/-- `select` fails, for example because a signal interrupts it. -/
def interrupted : List (Action ℕ) :=
  [.socketReturns 3, .connectReturns true, .user, .user, .user, .receiver,
    .selectReturns .failed]

/-- The run leaves no `connect` in progress and the receive thread finished, but the flag
set, and the next `send_message` sends into the dead connection. -/
def Lies (as : List (Action ℕ)) : Prop :=
  ∃ s, Machine.run step (init 0) as = some s ∧ s.user = .idle ∧ s.receiver = some .done ∧
    s.connected = true ∧ ¬ Truthful s ∧
    ∃ s', Machine.run step s [.sendMessage 7, .user, .user] = some s' ∧
      s'.sent = [(3, 7)] ∧ s'.receiver = some .done

/-- **The flag can lie**, in both ways. -/
theorem connected_lies : Lies lostUpdate ∧ Lies interrupted := by
  constructor
  · exact ⟨_, rfl, rfl, rfl, rfl, by decide, _, rfl, rfl, rfl⟩
  · exact ⟨_, rfl, rfl, rfl, rfl, by decide, _, rfl, rfl, rfl⟩

/-! ### Each mishap leads to a lie -/

/-- Facts about all runs, orderly or not. -/
structure Marked (s : State M) : Prop where
  /-- while the receive thread runs the flag is set, but for the moment after its start -/
  marked : ∀ r, s.receiver = some r → r ≠ .done → s.user.publishing = false →
    s.connected = true
  /-- the former thread has been joined when a new one is started -/
  joined : ∀ caller, s.user = .startThread caller → s.receiver = none

theorem marked_init (socketPeer : ℤ) : Marked (init socketPeer : State M) :=
  ⟨nofun, nofun⟩

theorem marked_step (hs : Marked s) (h : step s a = some s') : Marked s' := by
  obtain ⟨hmarked, hjoined⟩ := hs
  -- a thread that makes a step has not been joined
  have hbusy : ∀ {r caller}, s.receiver = some r → s.user ≠ .startThread caller := by
    intro r caller hr hu
    rw [hjoined caller hu] at hr
    cases hr
  cases step_trans h with
  | callConnect hu | callSendMessage hu | callDestroy hu | socketFailed hu | socketOk hu
  | connectFailed hu | connectOk hu | useConnection hu | reconnect hu | send hu
  | stopRunning hu | terminate hu | close hu =>
    exact ⟨fun r hr hne _ => hmarked r hr hne (by rw [hu]; rfl), nofun⟩
  | joinNone hu hr =>
    exact ⟨fun r hr' hne _ => hmarked r hr' hne (by rw [hu]; rfl), fun _ _ => hr⟩
  | join => exact ⟨nofun, fun _ _ => rfl⟩
  | joinReceiver => exact ⟨nofun, nofun⟩
  | startThread => exact ⟨fun _ _ _ hp => absurd hp nofun, nofun⟩
  | @setConnected caller =>
    refine ⟨fun _ _ _ _ => rfl, fun caller' hu => ?_⟩
    cases caller <;> cases hu
  | selectFailed hr | stop hr | clear hr =>
    refine ⟨fun r hdone hne => ?_, fun caller hu => absurd hu (hbusy hr)⟩
    exact absurd (Option.some.inj hdone).symm hne
  | selectReadable hr | selectOther hr | recvClosed hr | recvMessage hr | loop hr
  | callback hr =>
    exact ⟨fun _ _ _ hp => hmarked _ hr nofun hp, fun caller hu => absurd hu (hbusy hr)⟩

/-- Outside `connect` and the destructor, a set flag beside a finished thread is a lie. -/
theorem not_truthful (hc : s.user.connecting = false) (hd : s.user.destroying = false)
    (hdone : s.receiver = some .done) (hset : s.connected = true) : ¬ Truthful s := by
  intro htruth
  rw [htruth hc hd hdone] at hset
  cases hset

/-- A `connect` about to set the flag after the thread it started has finished. -/
theorem lies_of_publishing {caller : Caller M} (hu : s.user = .setConnected caller)
    (hdone : s.receiver = some .done) :
    Machine.CanReach step (fun t => ¬ Truthful t) s := by
  refine .next (step_iff_trans.mpr (.setConnected hu)) (.here ?_)
  cases caller <;> exact not_truthful rfl rfl hdone rfl

/-- **The condition is the weakest one**: after any step that is not in order the flag may
lie, at once or after the next step of the user. -/
theorem disorder_lies {socketPeer : ℤ} {as : List (Action M)}
    (hrun : Machine.run step (init socketPeer) as = some s) (hdis : ¬ InOrder s a)
    (h : step s a = some s') : Machine.CanReach step (fun t => ¬ Truthful t) s' := by
  obtain ⟨hmarked, hjoined⟩ : Marked s :=
    Machine.run_invariant marked_step (marked_init socketPeer) hrun
  cases step_trans h with
  | selectFailed hr =>
    have hset : s.user.publishing = false → s.connected = true := hmarked _ hr nofun
    simp only [InOrder, not_or] at hdis
    cases hu : s.user with
    | idle | testConnected | send =>
      exact .here (not_truthful rfl rfl rfl (hset (by rw [hu]; rfl)))
    | socket caller =>
      refine .next (step_iff_trans.mpr (.socketFailed rfl (by decide : (-1 : ℤ) < 0))) (.here ?_)
      exact not_truthful rfl rfl rfl (hset (by rw [hu]; rfl))
    | connect caller =>
      refine .next (step_iff_trans.mpr (.connectFailed rfl)) (.here ?_)
      exact not_truthful rfl rfl rfl (hset (by rw [hu]; rfl))
    | join => exact absurd (by rw [hu]; rfl) hdis.1
    | startThread caller =>
      rw [hjoined caller hu] at hr
      cases hr
    | setConnected caller => exact lies_of_publishing rfl rfl
    | stopRunning | joinReceiver | close | gone | terminated =>
      exact absurd (by rw [hu]; rfl) hdis.2
  | clear hr =>
    have hp : s.user.publishing = true := by simpa [InOrder, hr] using hdis
    cases hu : s.user with
    | setConnected caller => exact lies_of_publishing rfl rfl
    | _ => rw [hu] at hp; cases hp
  | loop hr | stop hr | callback hr => simp [InOrder, hr] at hdis
  | _ => exact absurd trivial hdis

end TcpClient

end CppPlayground
