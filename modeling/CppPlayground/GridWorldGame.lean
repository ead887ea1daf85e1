import CppPlayground.GridWorld

/-!
# What the game is, and that the code plays it

The game itself needs no board, no names and no exceptions: its state is the cell the
player is on, a move goes to the neighbouring cell if that is free, and the cell says
whether the game is over. The world the code keeps is a function of that cell
(`worldAt`).

The code refines the game: the constructor builds the world of the top left cell, and
`step` takes the world of a cell to the world of the cell the game moves to, with the
game's reward and the one-hot encoding, whichever order the arguments are evaluated in
(`step_ongoing`); on a finished game it throws and changes nothing (`step_finished`).
All this on boards that have room for the four pieces and fit into vectors, with memory for
these (`Playable`).
-/

namespace CppPlayground

namespace GridWorld

open GridBoard (OnBoard Fits StateRoom)

/-! ## The game -/

/-- A row and a column. -/
abbrev Cell : Type := ℤ × ℤ

/-- The cell nobody can enter. -/
def wall : Cell := (1, 2)

/-- The cell where the game is lost. -/
def pit : Cell := (2, 2)

/-- The cell where the game is won. -/
def goal : Cell := (3, 3)

/-- Where an action leads if nothing is in the way. -/
def neighbour (c : Cell) (action : Action) : Cell :=
  (c.1 + (mapAction action).1, c.2 + (mapAction action).2)

/-- The cells the player can be on. -/
def Free (size : ℕ) (c : Cell) : Prop := c ≠ wall ∧ OnBoard size c

instance decidableFree (size : ℕ) (c : Cell) : Decidable (Free size c) :=
  inferInstanceAs (Decidable (_ ∧ _))

/-- A move of the game. -/
def move (size : ℕ) (c : Cell) (action : Action) : Cell :=
  if Free size (neighbour c action) then neighbour c action else c

/-- Whether the game is over with the player on `c`. -/
def statusAt (c : Cell) : Status :=
  if c = pit then .loss else if c = goal then .win else .ongoing

/-- The reward for a move that leads to this status. -/
def rewardFor : Status → ℤ
  | .ongoing => -1
  | .win => 10
  | .loss => -10

theorem free_move {size : ℕ} {c : Cell} (hc : Free size c) (action : Action) :
    Free size (move size c action) := by
  rw [move]
  split
  · assumption
  · exact hc

theorem statusAt_cases (c : Cell) :
    (c = pit ∧ statusAt c = .loss) ∨ (c = goal ∧ statusAt c = .win) ∨
      ((c ≠ pit ∧ c ≠ goal) ∧ statusAt c = .ongoing) := by
  by_cases hpit : c = pit
  · exact .inl ⟨hpit, if_pos hpit⟩
  · by_cases hgoal : c = goal
    · exact .inr (.inl ⟨hgoal, by rw [statusAt, if_neg hpit, if_pos hgoal]⟩)
    · exact .inr (.inr ⟨⟨hpit, hgoal⟩, by rw [statusAt, if_neg hpit, if_neg hgoal]⟩)

theorem statusAt_eq_win {c : Cell} : statusAt c = .win ↔ c = goal := by
  have hne : pit ≠ goal := by decide
  rcases statusAt_cases c with ⟨rfl, h⟩ | ⟨rfl, h⟩ | ⟨⟨-, hgoal⟩, h⟩ <;> simp [*]

theorem statusAt_eq_loss {c : Cell} : statusAt c = .loss ↔ c = pit := by
  have hne : goal ≠ pit := by decide
  rcases statusAt_cases c with ⟨rfl, h⟩ | ⟨rfl, h⟩ | ⟨⟨hpit, -⟩, h⟩ <;> simp [*]

theorem statusAt_eq_ongoing {c : Cell} : statusAt c = .ongoing ↔ c ≠ pit ∧ c ≠ goal := by
  rcases statusAt_cases c with ⟨rfl, h⟩ | ⟨rfl, h⟩ | ⟨hne, h⟩ <;> simp [*]

/-! ## The world of a cell -/

/-- The board with the player on `c`. -/
def boardAt (size : ℕ) (c : Cell) : GridBoard where
  size := size
  pieces := [⟨"Player", 'P', c.1, c.2⟩, ⟨"Wall", 'W', 1, 2⟩, ⟨"Pit", '-', 2, 2⟩,
    ⟨"Goal", '+', 3, 3⟩]

/-- The four pieces are on the board, and `state` can build its vectors and has the memory for
them. -/
structure Playable (mem : Memory) (size : ℕ) : Prop where
  four : 4 ≤ size
  fits : Fits size
  room : StateRoom mem size 4

/-- The world with the player on `c`. -/
def worldAt (size : ℕ) (c : Cell) : GridWorld := ⟨boardAt size c, statusAt c⟩

variable {mem : Memory} {size : ℕ} {c : Cell}

/-- What follows a call of `addPiece` starts with the new piece on the board, or not at all. -/
theorem addPiece_bind_cases (mem : Memory) (name : String) (code : Char) (rowIdx colIdx : ℤ)
    (b : GridBoard) (x : GridBoard.Call Unit) :
    (GridBoard.addPiece mem name code rowIdx colIdx >>= fun _ => x).run b =
        x.run { b with pieces := b.pieces ++ [⟨name, code, rowIdx, colIdx⟩] } ∨
      ∃ err, (GridBoard.addPiece mem name code rowIdx colIdx >>= fun _ => x).run b =
        .error err b := by
  rw [EStateM.run_bind]
  rcases GridBoard.addPiece_cases mem name code rowIdx colIdx b with h | ⟨err, h⟩
  · rw [h]
    exact .inl rfl
  · rw [h]
    exact .inr ⟨err, rfl⟩

/-- If the calls of the constructor return, the player is on the top left cell. -/
theorem setup_cases (mem : Memory) (size : ℕ) :
    (setup mem).run (GridBoard.new size) = .ok () (boardAt size (0, 0)) ∨
      ∃ err b, (setup mem).run (GridBoard.new size) = .error err b := by
  rw [setup]
  rcases addPiece_bind_cases mem "Player" 'P' 0 0 (GridBoard.new size) _ with h | ⟨err, h⟩
  case inr => exact .inr ⟨err, _, h⟩
  rw [h]
  rcases addPiece_bind_cases mem "Wall" 'W' 1 2 _ _ with h | ⟨err, h⟩
  case inr => exact .inr ⟨err, _, h⟩
  rw [h]
  rcases addPiece_bind_cases mem "Pit" '-' 2 2 _ _ with h | ⟨err, h⟩
  case inr => exact .inr ⟨err, _, h⟩
  rw [h]
  rcases GridBoard.addPiece_cases mem "Goal" '+' 3 3 _ with h | ⟨err, h⟩
  case inr => exact .inr ⟨err, _, h⟩
  exact .inl h

theorem eq_of_new {g : GridWorld} (h : new mem size = .ok g) : g = worldAt size (0, 0) := by
  rcases setup_cases mem size with hsetup | ⟨err, b, hsetup⟩
  · have hsetup' : setup mem (GridBoard.new size) = .ok () (boardAt size (0, 0)) := hsetup
    rw [new, hsetup'] at h
    cases h
    rfl
  · have hsetup' : setup mem (GridBoard.new size) = .error err b := hsetup
    rw [new, hsetup'] at h
    cases h

/-! ### Where the pieces are -/

theorem player_run (st : Status) :
    (onBoard (GridBoard.getPiecePos "Player")).run ⟨boardAt size c, st⟩ =
      .ok c ⟨boardAt size c, st⟩ := rfl

theorem wall_run (st : Status) :
    (onBoard (GridBoard.getPiecePos "Wall")).run ⟨boardAt size c, st⟩ =
      .ok wall ⟨boardAt size c, st⟩ := rfl

theorem pit_run (st : Status) :
    (onBoard (GridBoard.getPiecePos "Pit")).run ⟨boardAt size c, st⟩ =
      .ok pit ⟨boardAt size c, st⟩ := rfl

theorem goal_run (st : Status) :
    (onBoard (GridBoard.getPiecePos "Goal")).run ⟨boardAt size c, st⟩ =
      .ok goal ⟨boardAt size c, st⟩ := rfl

/-- A call on the board is a call on the world. -/
theorem onBoard_run {α : Type} {x : GridBoard.Call α} {board board' : GridBoard} {a : α}
    (h : x.run board = .ok a board') (st : Status) :
    (onBoard x).run ⟨board, st⟩ = .ok a ⟨board', st⟩ := by
  have h' : x board = .ok a board' := h
  simp only [EStateM.run, onBoard, h']

theorem onBoard_throws {α : Type} {x : GridBoard.Call α} {board board' : GridBoard} {err : Thrown}
    (h : x.run board = .error err board') (st : Status) :
    (onBoard x).run ⟨board, st⟩ = .error err ⟨board', st⟩ := by
  have h' : x board = .error err board' := h
  simp only [EStateM.run, onBoard, h']

theorem ofExcept_run {σ α : Type} (a : α) (s : σ) :
    (GridBoard.ofExcept (.ok a)).run s = .ok a s := rfl

/-! ### The member functions on such a world -/

/-- The player's cell and its neighbours are far from the limits of `int`. -/
theorem isInt_neighbour (hfits : Fits size) (hc : OnBoard size c) (action : Action) :
    IsInt (c.1 + (mapAction action).1) ∧ IsInt (c.2 + (mapAction action).2) := by
  obtain ⟨⟨hr0, hr⟩, hc0, hc⟩ := hc
  have hsize := hfits.size_lt
  cases action <;> simp only [IsInt, mapAction] <;> omega

theorem isValid_run {action : Action}
    (hint : IsInt (c.1 + (mapAction action).1) ∧ IsInt (c.2 + (mapAction action).2))
    (st : Status) :
    (isValid (mapAction action).1 (mapAction action).2).run ⟨boardAt size c, st⟩ =
      .ok (decide (Free size (neighbour c action))) ⟨boardAt size c, st⟩ := by
  obtain ⟨hrow, hcol⟩ := hint
  have hiff := GridBoard.isOnBoard_iff (b := boardAt size c) hrow hcol
  simp only [isValid, EStateM.run_bind, player_run, wall_run, EStateM.run_get,
    EStateM.run_pure, addInt_ok hrow, addInt_ok hcol, ofExcept_run]
  rw [EStateM.Result.ok.injEq]
  refine ⟨?_, rfl⟩
  rw [Bool.eq_iff_iff, Bool.and_eq_true, decide_eq_true_eq, decide_eq_true_eq, hiff]
  rfl

theorem movePiece_run {action : Action}
    (hint : IsInt (c.1 + (mapAction action).1) ∧ IsInt (c.2 + (mapAction action).2))
    (st : Status) :
    (onBoard (GridBoard.movePiece "Player" (mapAction action).1 (mapAction action).2)).run
        ⟨boardAt size c, st⟩ =
      .ok () ⟨boardAt size (neighbour c action), st⟩ := by
  obtain ⟨hrow, hcol⟩ := hint
  have hboard : (GridBoard.movePiece "Player" (mapAction action).1 (mapAction action).2).run
      (boardAt size c) = .ok () (boardAt size (neighbour c action)) := by
    have hfind : (boardAt size c).findPiece "Player" = some ⟨"Player", 'P', c.1, c.2⟩ := rfl
    simp only [GridBoard.movePiece, EStateM.run_bind, EStateM.run_get, hfind, addInt_ok hrow,
      addInt_ok hcol, ofExcept_run]
    rfl
  exact onBoard_run hboard st

theorem evaluate_run : evaluate.run ⟨boardAt size c, .ongoing⟩ =
    .ok (rewardFor (statusAt c)) (worldAt size c) := by
  simp only [evaluate, EStateM.run_bind, player_run, pit_run]
  rcases statusAt_cases c with ⟨rfl, h⟩ | ⟨rfl, h⟩ | ⟨⟨hpit, hgoal⟩, h⟩
  · rw [worldAt, h]
    rfl
  · rw [worldAt, h]
    rfl
  · rw [if_neg hpit]
    simp only [EStateM.run_bind, player_run, goal_run, if_neg hgoal, worldAt, h]
    rfl

/-- The one-hot encoding of the board with the player on `c`. -/
def encode (size : ℕ) (c : Cell) : List (List ℤ) :=
  (boardAt size c).pieces.map (GridBoard.oneHot size)

theorem onBoard_pieces (hsize : 4 ≤ size) (hc : OnBoard size c) :
    ∀ piece ∈ (boardAt size c).pieces, OnBoard size piece.pos := by
  intro piece hmem
  simp only [boardAt, List.mem_cons, List.not_mem_nil, or_false] at hmem
  rcases hmem with rfl | rfl | rfl | rfl
  · exact hc
  all_goals
    simp only [OnBoard, BoardPiece.pos]
    omega

theorem state_run (hplay : Playable mem size) (hc : OnBoard size c) (st : Status) :
    (onBoard (GridBoard.state mem)).run ⟨boardAt size c, st⟩ =
      .ok (encode size c) ⟨boardAt size c, st⟩ :=
  onBoard_run (GridBoard.state_ok hplay.fits hplay.room (onBoard_pieces hplay.four hc)) st

theorem stepResult_run (hplay : Playable mem size) (hc : OnBoard size c) (order : EvalOrder) :
    (stepResult mem order).run ⟨boardAt size c, .ongoing⟩ =
      .ok (rewardFor (statusAt c), encode size c) (worldAt size c) := by
  cases order with
  | evaluateFirst =>
    have hstate := state_run hplay hc (statusAt c)
    simp only [stepResult, EStateM.run_bind, evaluate_run, worldAt, hstate, EStateM.run_pure]
  | stateFirst =>
    simp only [stepResult, EStateM.run_bind, state_run hplay hc, evaluate_run,
      EStateM.run_pure]

/-- When the board cannot be encoded the player stays where it has gone. -/
theorem stepResult_throws {err : Thrown}
    (hstate : (GridBoard.state mem).run (boardAt size c) = .error err (boardAt size c))
    (order : EvalOrder) : ∃ st, (stepResult mem order).run ⟨boardAt size c, .ongoing⟩ =
      .error err ⟨boardAt size c, st⟩ := by
  cases order with
  | evaluateFirst =>
    refine ⟨statusAt c, ?_⟩
    simp only [stepResult, EStateM.run_bind, evaluate_run, worldAt,
      onBoard_throws hstate (statusAt c)]
  | stateFirst =>
    refine ⟨.ongoing, ?_⟩
    simp only [stepResult, EStateM.run_bind, onBoard_throws hstate .ongoing]

/-- What is left of a step of an ongoing game once the player has moved, or not. -/
theorem step_eq_stepResult {action : Action}
    (hint : IsInt (c.1 + (mapAction action).1) ∧ IsInt (c.2 + (mapAction action).2))
    (hgoing : statusAt c = .ongoing) (order : EvalOrder) :
    (step mem order action).run (worldAt size c) =
      (stepResult mem order).run ⟨boardAt size (move size c action), .ongoing⟩ := by
  simp only [step, worldAt, hgoing, EStateM.run_bind, EStateM.run_get, ne_eq, not_true_eq_false,
    if_false, isValid_run hint]
  rw [move]
  by_cases hfree : Free size (neighbour c action)
  · rw [if_pos hfree]
    simp only [hfree, decide_true, if_true, EStateM.run_bind, movePiece_run hint]
  · rw [if_neg hfree]
    simp only [hfree, decide_false, Bool.false_eq_true, if_false]

/-- **The code plays the game.** -/
theorem step_ongoing (hplay : Playable mem size) (hc : Free size c)
    (hgoing : statusAt c = .ongoing) (order : EvalOrder) (action : Action) :
    (step mem order action).run (worldAt size c) =
      .ok (rewardFor (statusAt (move size c action)), encode size (move size c action))
        (worldAt size (move size c action)) := by
  rw [step_eq_stepResult (isInt_neighbour hplay.fits hc.2 action) hgoing]
  exact stepResult_run hplay (free_move hc action).2 order

/-- **A finished game stays as it is**, and says so. -/
theorem step_finished (hover : statusAt c ≠ .ongoing) (order : EvalOrder) (action : Action) :
    (step mem order action).run (worldAt size c) =
      .error (.runtimeError "cannot step a finished game.") (worldAt size c) := by
  simp only [step, worldAt, EStateM.run_bind, EStateM.run_get, ne_eq, hover, not_false_eq_true,
    if_true]
  rfl

end GridWorld

end CppPlayground
