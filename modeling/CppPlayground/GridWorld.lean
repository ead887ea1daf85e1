import CppPlayground.GridBoard
import CppPlayground.Machine

/-!
# The grid world game

`GridWorld` (`grid_world/include/grid_world.h`) puts a player, a wall, a pit and a goal on
a `GridBoard` and lets the player move by one cell at a time, until it falls into the pit
or reaches the goal.

The result of `step` is a pair built from `evaluate()` and `board_.state()`, and C++ does
not say which of the two is called first. `EvalOrder` is that choice, made anew for every
call. What the functions print to the terminal is left out, except for what `display`
shows.
-/

namespace CppPlayground

/-- `GridWorld::Status`. -/
inductive Status : Type where
  | ongoing : Status
  | loss : Status
  | win : Status
  deriving DecidableEq, Repr

/-- `GridWorld`: the members `board_` and `status_`. -/
structure GridWorld : Type where
  board : GridBoard
  status : Status
  deriving DecidableEq, Repr

namespace GridWorld

/-- `GridWorld::Action`. -/
inductive Action : Type where
  | up : Action
  | down : Action
  | left : Action
  | right : Action
  deriving DecidableEq, Repr

/-- Which argument of `std::pair(evaluate(), board_.state())` comes first. -/
inductive EvalOrder : Type where
  | evaluateFirst : EvalOrder
  | stateFirst : EvalOrder
  deriving DecidableEq, Repr

/-- What `display` shows: the table of the board, or a line of text. -/
inductive Screen : Type where
  | table (cells : List (List Char)) : Screen
  | text (line : String) : Screen
  deriving DecidableEq, Repr

/-- A call of a member function of the world. -/
abbrev Call (α : Type) : Type := EStateM Thrown GridWorld α

/-- A call of a member function of `board_`. -/
def onBoard {α : Type} (x : GridBoard.Call α) : Call α := fun g =>
  match x g.board with
  | .ok a board => .ok a { g with board := board }
  | .error e board => .error e { g with board := board }

/-! ## The member functions -/

/-- The four calls of the constructor's body. -/
def setup (mem : Memory) : GridBoard.Call Unit := do
  GridBoard.addPiece mem "Player" 'P' 0 0
  GridBoard.addPiece mem "Wall" 'W' 1 2
  GridBoard.addPiece mem "Pit" '-' 2 2
  GridBoard.addPiece mem "Goal" '+' 3 3

/-- The constructor. -/
def new (mem : Memory) (size : ℕ) : Except Thrown GridWorld :=
  match setup mem (GridBoard.new size) with
  | .ok _ board => .ok ⟨board, .ongoing⟩
  | .error e _ => .error e

/-- `mapAction`. -/
def mapAction : Action → ℤ × ℤ
  | .up => (-1, 0)
  | .down => (1, 0)
  | .left => (0, -1)
  | .right => (0, 1)

/-- `isValid`. -/
def isValid (rowIdxDelta colIdxDelta : ℤ) : Call Bool := do
  let rowIdx ← GridBoard.ofExcept
    (addInt (← onBoard (GridBoard.getPiecePos "Player")).1 rowIdxDelta)
  let colIdx ← GridBoard.ofExcept
    (addInt (← onBoard (GridBoard.getPiecePos "Player")).2 colIdxDelta)
  let wall ← onBoard (GridBoard.getPiecePos "Wall")
  return decide ((rowIdx, colIdx) ≠ wall) && (← get).board.isOnBoard rowIdx colIdx

/-- `evaluate`. -/
def evaluate : Call ℤ := do
  if (← onBoard (GridBoard.getPiecePos "Player")) = (← onBoard (GridBoard.getPiecePos "Pit"))
  then
    modify fun g => { g with status := .loss }
    return -10
  else if (← onBoard (GridBoard.getPiecePos "Player")) =
    (← onBoard (GridBoard.getPiecePos "Goal"))
  then
    modify fun g => { g with status := .win }
    return 10
  else
    return -1

/-- The returned pair of `step`. -/
def stepResult (mem : Memory) : EvalOrder → Call (ℤ × List (List ℤ))
  | .evaluateFirst => do
    let reward ← evaluate
    let state ← onBoard (GridBoard.state mem)
    return (reward, state)
  | .stateFirst => do
    let state ← onBoard (GridBoard.state mem)
    let reward ← evaluate
    return (reward, state)

/-- `step`. -/
def step (mem : Memory) (order : EvalOrder) (action : Action) : Call (ℤ × List (List ℤ)) := do
  if (← get).status ≠ .ongoing then
    throw (.runtimeError "cannot step a finished game.")
  let (rowIdxDelta, colIdxDelta) := mapAction action
  if ← isValid rowIdxDelta colIdxDelta then
    onBoard (GridBoard.movePiece "Player" rowIdxDelta colIdxDelta)
  stepResult mem order

/-- `display`. -/
def display (mem : Memory) (g : GridWorld) : Except Thrown Screen :=
  match g.status with
  | .ongoing => (g.board.display mem).map .table
  | .win => .ok (.text "You won the game by reaching the goal\n")
  | .loss => .ok (.text "You loss the game by falling in the pit\n")

end GridWorld

end CppPlayground
