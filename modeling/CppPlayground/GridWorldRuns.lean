import CppPlayground.GridWorldGame
import Mathlib.Algebra.Ring.Int.Defs
import Mathlib.Tactic.SplitIfs

/-!
# Playing the grid world

Runs of `step` calls, in which a call may throw and the caller goes on. Since the code
plays the game, a run is in the world of some free cell at all times, and everything the
class promises is read off that cell (`gameInvariant_run`).

The game can be won from every cell it can still be played from: outside row 3 the player
heads for row 3, except that it first passes the wall on its right when that is below it,
and in row 3 for column 3. Every such move gets closer to the goal (`canReach_goal`).

Larger boards are useless: when the encoding does not fit into a vector, or the number of
cells wraps around, the first `step` throws (`step_throws_lengthError`,
`cannot_win_wrapped`). The same goes for boards whose encoding would fit, but not into the
memory there is (`step_throws_badAlloc`).
-/

namespace CppPlayground

namespace GridWorld

open GridBoard (OnBoard Fits StateRoom TableRoom)

/-! ## Runs -/

/-- A world and the rewards of the `step` calls that returned. -/
structure Session : Type where
  world : GridWorld
  rewards : List ℤ
  deriving DecidableEq, Repr

/-- A call of `step`; its caller catches what it may throw. -/
def play (mem : Memory) (s : Session) (call : EvalOrder × Action) : Option Session :=
  match (step mem call.1 call.2).run s.world with
  | .ok (reward, _) world => some ⟨world, s.rewards ++ [reward]⟩
  | .error _ world => some { s with world := world }

/-- What the rewards of `m` successful steps add up to. -/
def balance (m : ℕ) : Status → ℤ
  | .ongoing => -m
  | .win => 11 - m
  | .loss => -9 - m

/-- The session is in the world of a free cell, and the rewards are right. -/
def Reached (size : ℕ) (s : Session) : Prop :=
  ∃ c, Free size c ∧ s.world = worldAt size c ∧
    s.rewards.sum = balance s.rewards.length (statusAt c)

variable {mem : Memory} {size : ℕ}

theorem reached_new (hsize : 4 ≤ size) {g : GridWorld} (hnew : new mem size = .ok g) :
    Reached size ⟨g, []⟩ := by
  obtain rfl := eq_of_new hnew
  refine ⟨(0, 0), ⟨by decide, ?_⟩, rfl, rfl⟩
  simp only [OnBoard]
  omega

theorem balance_succ (m : ℕ) (st : Status) :
    balance m .ongoing + rewardFor st = balance (m + 1) st := by
  cases st <;> simp only [balance, rewardFor] <;> omega

theorem reached_play (hplay : Playable mem size) {s s' : Session}
    {call : EvalOrder × Action} (hs : Reached size s) (h : play mem s call = some s') :
    Reached size s' := by
  obtain ⟨world, rewards⟩ := s
  obtain ⟨c, hc, rfl, hsum⟩ := hs
  by_cases hgoing : statusAt c = .ongoing
  · simp only [play, step_ongoing hplay hc hgoing] at h
    cases h
    refine ⟨move size c call.2, free_move hc call.2, rfl, ?_⟩
    rw [List.sum_append, List.sum_singleton, List.length_append, List.length_singleton, hsum,
      hgoing, balance_succ]
  · simp only [play, step_finished hgoing] at h
    cases h
    exact ⟨c, hc, rfl, hsum⟩

/-- **What the class promises** about a session, in terms of its own functions. -/
structure GameInvariant (mem : Memory) (s : Session) : Prop where
  /-- the player is on the board and not on the wall, and its position says how the game
  stands -/
  player : ∃ c, (GridBoard.getPiecePos "Player").run s.world.board = .ok c s.world.board ∧
    s.world.board.isOnBoard c.1 c.2 = true ∧ c ≠ wall ∧
    (s.world.status = .win ↔ c = goal) ∧ (s.world.status = .loss ↔ c = pit) ∧
    (s.world.status = .ongoing ↔ c ≠ pit ∧ c ≠ goal)
  /-- the wall does not move -/
  wall_fixed : (GridBoard.getPiecePos "Wall").run s.world.board = .ok wall s.world.board
  /-- the pit does not move -/
  pit_fixed : (GridBoard.getPiecePos "Pit").run s.world.board = .ok pit s.world.board
  /-- the goal does not move -/
  goal_fixed : (GridBoard.getPiecePos "Goal").run s.world.board = .ok goal s.world.board
  /-- no step on an ongoing game throws -/
  step_returns : s.world.status = .ongoing → ∀ order action,
    ∃ result world, (step mem order action).run s.world = .ok result world
  /-- in an ongoing game no two pieces share a cell -/
  apart : s.world.status = .ongoing → GridBoard.Apart s.world.board.pieces
  /-- `display` never throws -/
  display_returns : ∃ screen, display mem s.world = .ok screen
  /-- a step on a finished game throws and changes nothing -/
  step_throws : s.world.status ≠ .ongoing → ∀ order action, (step mem order action).run s.world =
    .error (.runtimeError "cannot step a finished game.") s.world
  /-- the rewards add up -/
  rewards : s.rewards.sum = balance s.rewards.length s.world.status

theorem apart_pieces {c : Cell} (hwall : c ≠ wall) (hgoing : statusAt c = .ongoing) :
    GridBoard.Apart (boardAt size c).pieces := by
  obtain ⟨hpit, hgoal⟩ := statusAt_eq_ongoing.mp hgoing
  refine .cons ?_ (show GridBoard.Apart _ by unfold GridBoard.Apart; decide)
  intro piece hmem
  simp only [List.mem_cons, List.not_mem_nil, or_false] at hmem
  rcases hmem with rfl | rfl | rfl
  · exact hwall
  · exact hpit
  · exact hgoal

theorem display_worldAt (hplay : Playable mem size) (htable : TableRoom mem size) {c : Cell}
    (hc : Free size c) : ∃ screen, display mem (worldAt size c) = .ok screen := by
  cases hst : statusAt c with
  | ongoing =>
    have hlt : size < 2 ^ 64 := Nat.lt_trans hplay.fits.size_lt (by decide)
    have hok := GridBoard.display_ok (b := boardAt size c) hlt htable
      (onBoard_pieces hplay.four hc.2) (apart_pieces hc.1 hst)
    simp only [display, worldAt, hst, hok]
    exact ⟨_, rfl⟩
  | loss | win =>
    simp only [display, worldAt, hst]
    exact ⟨_, rfl⟩

theorem gameInvariant_of_reached (hplay : Playable mem size) (htable : TableRoom mem size)
    {s : Session} (hs : Reached size s) : GameInvariant mem s := by
  obtain ⟨world, rewards⟩ := s
  obtain ⟨c, hc, rfl, hsum⟩ := hs
  have hint : IsInt c.1 ∧ IsInt c.2 := by
    obtain ⟨-, ⟨hr0, hr⟩, hc0, hc'⟩ := hc
    have hlt := hplay.fits.size_lt
    simp only [IsInt]
    omega
  exact
    { player := ⟨c, rfl, (GridBoard.isOnBoard_iff hint.1 hint.2).mpr hc.2, hc.1,
        statusAt_eq_win, statusAt_eq_loss, statusAt_eq_ongoing⟩
      wall_fixed := rfl
      pit_fixed := rfl
      goal_fixed := rfl
      step_returns := fun hgoing order action =>
        ⟨_, _, step_ongoing hplay hc hgoing order action⟩
      apart := apart_pieces hc.1
      display_returns := display_worldAt hplay htable hc
      step_throws := step_finished
      rewards := hsum }

/-- **Game invariant.** On every board with at least four rows whose encoding fits into a
vector and into the memory, and after every sequence of `step` calls, the class keeps its
promises. -/
theorem gameInvariant_run (hplay : Playable mem size) (htable : TableRoom mem size)
    {g : GridWorld} (hnew : new mem size = .ok g) {calls : List (EvalOrder × Action)} {s : Session}
    (hrun : Machine.run (play mem) ⟨g, []⟩ calls = some s) : GameInvariant mem s :=
  gameInvariant_of_reached hplay htable
    (Machine.run_invariant (reached_play hplay) (reached_new hplay.four hnew) hrun)

/-- Along the top row, down the right column, and one more step. -/
def winAndGoOn : List (EvalOrder × Action) :=
  [(.evaluateFirst, .right), (.stateFirst, .right), (.evaluateFirst, .right),
    (.stateFirst, .down), (.evaluateFirst, .down), (.stateFirst, .down),
    (.evaluateFirst, .left)]

theorem gameInvariant_run_winAndGoOn :
    ∃ g s, new (.upTo 80) 4 = .ok g ∧ Machine.run (play (.upTo 80)) ⟨g, []⟩ winAndGoOn = some s ∧
      s.world.status = .win ∧ s.rewards = [-1, -1, -1, -1, -1, 10] ∧
      GameInvariant (.upTo 80) s := by
  have hplay : Playable (.upTo 80) 4 :=
    ⟨Nat.le_refl 4, by unfold Fits; decide, GridBoard.stateRoom_upTo (by decide)⟩
  have htable : TableRoom (.upTo 80) 4 := GridBoard.tableRoom_upTo (by decide)
  have hnew : new (.upTo 80) 4 = .ok (worldAt 4 (0, 0)) := rfl
  have hrun : Machine.run (play (.upTo 80)) ⟨worldAt 4 (0, 0), []⟩ winAndGoOn =
      some ⟨worldAt 4 (3, 3), [-1, -1, -1, -1, -1, 10]⟩ := by rfl
  exact ⟨_, _, hnew, hrun, rfl, rfl, gameInvariant_run hplay htable hnew hrun⟩

/-! ## Boards that do not fit -/

/-- **Too large for a vector.** On a board of `2 ^ 31` rows, whose number of cells is still
a `size_t`, no step returns, however much memory there is. -/
theorem step_throws_lengthError :
    ∃ g, 4 ≤ 2 ^ 31 ∧ 2 ^ 31 * 2 ^ 31 < 2 ^ 64 ∧ new (.upTo 0) (2 ^ 31) = .ok g ∧
      g.status = .ongoing ∧
      ∀ mem order action, ∃ g', (step mem order action).run g = .error .lengthError g' := by
  refine ⟨worldAt (2 ^ 31) (0, 0), by decide, by decide, rfl, rfl, ?_⟩
  intro mem order action
  cases order <;> cases action <;> exact ⟨_, rfl⟩

/-- **Too large for the memory.** Without room for the vectors of `state` no step of an ongoing
game returns. -/
theorem step_throws_badAlloc (hsize : 4 ≤ size) (hfits : Fits size)
    (hroom : ¬ StateRoom mem size 4) {c : Cell} (hc : Free size c)
    (hgoing : statusAt c = .ongoing) (order : EvalOrder) (action : Action) :
    ∃ g', (step mem order action).run (worldAt size c) = .error .badAlloc g' := by
  have hpieces := onBoard_pieces hsize (free_move hc action).2
  obtain ⟨err, hstate, ⟨rfl, -⟩ | ⟨-, piece, hmem, hacc⟩⟩ :=
    @GridBoard.state_throws mem (boardAt size (move size c action)) fun h => hroom h.2
  · obtain ⟨st, hthrow⟩ := stepResult_throws hstate order
    rw [step_eq_stepResult (isInt_neighbour hfits hc.2 action) hgoing]
    exact ⟨_, hthrow⟩
  · exact absurd (GridBoard.accepted_of_onBoard hfits (hpieces piece hmem)).1 hacc

/-- The vectors of a board of `2 ^ 30` rows would fit, but not into memory for `2 ^ 50` numbers. -/
example : Fits (2 ^ 30) ∧ ¬ StateRoom (.upTo (2 ^ 50)) (2 ^ 30) 4 :=
  ⟨by unfold Fits; decide, fun h => absurd (h 0 (by decide)).2 (by decide)⟩

/-! ## Winning -/

/-- A move of a game that is not over. -/
def gameStep (size : ℕ) (c : Cell) (action : Action) : Option Cell :=
  if statusAt c = .ongoing then some (move size c action) else none

/-- A call of `step` that returns. -/
def succeed (mem : Memory) (g : GridWorld) (call : EvalOrder × Action) : Option GridWorld :=
  match (step mem call.1 call.2).run g with
  | .ok _ g' => some g'
  | .error _ _ => none

/-- The distance to the goal. -/
def distance (c : Cell) : ℕ := (goal.1 - c.1).natAbs + (goal.2 - c.2).natAbs

/-- The way to the goal: to row 3 first, past the wall, then along row 3. -/
def towardsGoal (c : Cell) : Action :=
  if c = (0, 2) then .right
  else if c.1 < 3 then .down
  else if 3 < c.1 then .up
  else if c.2 < 3 then .right
  else .left

/-- The way leads over free cells other than the pit and gets closer to the goal. -/
theorem towardsGoal_closer (hsize : 4 ≤ size) {c : Cell} (hc : Free size c)
    (hgoing : statusAt c = .ongoing) :
    Free size (neighbour c (towardsGoal c)) ∧ neighbour c (towardsGoal c) ≠ pit ∧
      distance (neighbour c (towardsGoal c)) < distance c := by
  obtain ⟨hpit, hgoal⟩ := statusAt_eq_ongoing.mp hgoing
  obtain ⟨row, col⟩ := c
  obtain ⟨hwall, ⟨hr0, hr⟩, hc0, hc⟩ := hc
  simp only [wall, pit, goal, ne_eq, Prod.mk.injEq] at hwall hpit hgoal
  simp only at hr0 hr hc0 hc
  simp only [towardsGoal, Prod.mk.injEq]
  split_ifs <;>
    simp only [neighbour, mapAction, Free, wall, pit, goal, OnBoard, distance, ne_eq,
      Prod.mk.injEq] <;>
    omega

/-- **The goal can be reached** from every cell the game can go on from. -/
theorem canReach_goal (hsize : 4 ≤ size) {c : Cell} (hc : Free size c)
    (hgoing : statusAt c = .ongoing) : Machine.CanReach (gameStep size) (· = goal) c := by
  refine Machine.canReach_of_measure (I := fun d => Free size d ∧ d ≠ pit) distance ?_
    ⟨hc, (statusAt_eq_ongoing.mp hgoing).1⟩
  rintro d ⟨hd, hpit⟩ hgoal
  have hgoing' : statusAt d = .ongoing := statusAt_eq_ongoing.mpr ⟨hpit, hgoal⟩
  obtain ⟨hfree, hne, hlt⟩ := towardsGoal_closer hsize hd hgoing'
  refine ⟨towardsGoal d, neighbour d (towardsGoal d), ?_, ⟨hfree, hne⟩, hlt⟩
  rw [gameStep, if_pos hgoing', move, if_pos hfree]

/-- A run of the game is a run of the code, in whatever order the code evaluates. -/
theorem succeed_run (hplay : Playable mem size) {actions : List Action}
    {c c' : Cell} (hc : Free size c) (hrun : Machine.run (gameStep size) c actions = some c')
    {calls : List (EvalOrder × Action)} (hcalls : calls.map Prod.snd = actions) :
    Machine.run (succeed mem) (worldAt size c) calls = some (worldAt size c') := by
  induction calls generalizing c actions with
  | nil =>
    subst hcalls
    cases hrun
    rfl
  | cons call calls ih =>
    subst hcalls
    rw [List.map_cons] at hrun
    obtain ⟨d, hd, hrest⟩ := Machine.run_cons_eq_some hrun
    simp only [gameStep] at hd
    split at hd
    case isFalse => cases hd
    case isTrue hgoing =>
      cases hd
      have hstep : succeed mem (worldAt size c) call =
          some (worldAt size (move size c call.2)) := by
        rw [succeed, step_ongoing hplay hc hgoing]
      rw [Machine.run_cons_some hstep]
      exact ih (free_move hc call.2) hrest rfl

/-- **A game can always still be won.** On every board with at least four rows whose
encoding fits into a vector and into the memory, from every state that `step` calls can lead to
and in which the game is ongoing, there are actions whose steps all return and that end in a
win. -/
theorem can_win (hplay : Playable mem size) {g : GridWorld} (hnew : new mem size = .ok g)
    {calls : List (EvalOrder × Action)} {s : Session}
    (hrun : Machine.run (play mem) ⟨g, []⟩ calls = some s) (hgoing : s.world.status = .ongoing) :
    ∃ actions, ∀ calls' : List (EvalOrder × Action), calls'.map Prod.snd = actions →
      ∃ g', Machine.run (succeed mem) s.world calls' = some g' ∧ g'.status = .win := by
  obtain ⟨world, rewards⟩ := s
  obtain ⟨c, hc, rfl, -⟩ :=
    Machine.run_invariant (reached_play hplay) (reached_new hplay.four hnew) hrun
  obtain ⟨actions, c', hgame, rfl⟩ := canReach_goal hplay.four hc hgoing
  refine ⟨actions, fun calls' hcalls => ⟨worldAt size goal, ?_, rfl⟩⟩
  exact succeed_run hplay hc hgame hcalls

/-- From the cell left of the pit on a board of five rows. -/
theorem can_win_beside_pit :
    ∃ g s, new (.upTo 125) 5 = .ok g ∧ Machine.run (play (.upTo 125)) ⟨g, []⟩
        [(.evaluateFirst, .right), (.evaluateFirst, .down), (.evaluateFirst, .down)] = some s ∧
      s.world = worldAt 5 (2, 1) ∧
      ∃ actions, ∀ calls' : List (EvalOrder × Action), calls'.map Prod.snd = actions →
        ∃ g', Machine.run (succeed (.upTo 125)) s.world calls' = some g' ∧ g'.status = .win := by
  have hplay : Playable (.upTo 125) 5 :=
    ⟨by decide, by unfold Fits; decide, GridBoard.stateRoom_upTo (by decide)⟩
  have hnew : new (.upTo 125) 5 = .ok (worldAt 5 (0, 0)) := rfl
  have hrun : Machine.run (play (.upTo 125)) ⟨worldAt 5 (0, 0), []⟩
      [(.evaluateFirst, .right), (.evaluateFirst, .down), (.evaluateFirst, .down)] =
        some ⟨worldAt 5 (2, 1), [-1, -1, -1]⟩ := by rfl
  exact ⟨_, _, hnew, hrun, rfl, can_win hplay hnew hrun rfl⟩

/-- **Unwinnable.** On a board of `2 ^ 32` rows the number of cells is 0 as a `size_t`; the
very first `step` throws, so that no sequence of successful steps ends in a win. -/
theorem cannot_win_wrapped :
    ∃ g, new (.upTo 0) (2 ^ 32) = .ok g ∧ g.status = .ongoing ∧
      ∀ mem calls g', Machine.run (succeed mem) g calls = some g' → g'.status ≠ .win := by
  refine ⟨worldAt (2 ^ 32) (0, 0), rfl, rfl, ?_⟩
  intro mem calls g' hrun
  cases calls with
  | nil =>
    cases hrun
    nofun
  | cons call calls =>
    obtain ⟨order, action⟩ := call
    have hnone : succeed mem (worldAt (2 ^ 32) (0, 0)) (order, action) = none := by
      cases order <;> cases action <;> rfl
    rw [Machine.run_cons, hnone] at hrun
    cases hrun

end GridWorld

end CppPlayground
