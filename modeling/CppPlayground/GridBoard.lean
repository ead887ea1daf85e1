import CppPlayground.ForLoop
import Mathlib.Algebra.Group.Int.Defs
import Mathlib.Algebra.Group.Nat.Defs
import Mathlib.Data.Int.Notation
import Mathlib.Data.List.Basic

/-!
# The board of the grid world

`GridBoard` (`grid_world/include/grid_board.h`) is a square board with named pieces at
signed positions. Its member functions report failures by exceptions, and an exception
does not undo what was done before it; they are therefore computations in
`EStateM Thrown GridBoard`, which keeps the object also when it throws.

Positions are `int`s and the size is a `size_t`. An `int` that meets a `size_t` in a
comparison or in arithmetic is converted first, so the arithmetic on indices is modulo
`2 ^ 64`; sums of `int`s that leave their 32 bits are undefined, and the model makes them
visible as a failure of their own.

The sizes are taken from the caller, so memory is a matter of the specification. Which requests
are granted is a parameter, `Memory`, of every function that asks for memory: the pieces of the
board, the vectors that `state` builds and copies, and the table of `display`. The few bytes of
a name or of the text of an exception are taken to be there.
-/

namespace CppPlayground

/-! ## Failures and machine numbers -/

/-- How a call can end other than by returning. -/
inductive Thrown : Type where
  /-- `std::runtime_error` with its text -/
  | runtimeError (what : String) : Thrown
  /-- `std::out_of_range`, from `std::vector::at` -/
  | outOfRange : Thrown
  /-- `std::length_error`, from the constructor of `std::vector` -/
  | lengthError : Thrown
  /-- `std::bad_alloc`: a request for memory was refused (the library of the table has a name of
  its own for it) -/
  | badAlloc : Thrown
  /-- no exception: an `int` overflowed, and the behaviour is undefined from there on -/
  | signedOverflow : Thrown
  deriving DecidableEq, Repr

/-- The values of the type `int`. -/
def IsInt (i : ℤ) : Prop := -2 ^ 31 ≤ i ∧ i < 2 ^ 31

instance decidableIsInt (i : ℤ) : Decidable (IsInt i) := inferInstanceAs (Decidable (_ ∧ _))

/-- The sum of two `int`s. -/
def addInt (a b : ℤ) : Except Thrown ℤ :=
  if IsInt (a + b) then .ok (a + b) else .error .signedOverflow

/-- The conversion from `int` to `size_t`. -/
def toSizeT (i : ℤ) : ℕ := (i % 2 ^ 64).toNat

theorem addInt_ok {a b : ℤ} (h : IsInt (a + b)) : addInt a b = .ok (a + b) := if_pos h

theorem toSizeT_of_nonneg {i : ℤ} (h0 : 0 ≤ i) (h : i < 2 ^ 64) : toSizeT i = i.toNat := by
  rw [toSizeT, Int.emod_eq_of_lt h0 h]

/-- `std::vector<int>::max_size()`: `PTRDIFF_MAX / sizeof(int)`. -/
def vectorMaxSize : ℕ := (2 ^ 63 - 1) / 4

/-- A request for memory. -/
inductive MemoryRequest : Type where
  /-- for one more piece behind `held` pieces, by `pieces_.push_back` -/
  | piece (held : ℕ) : MemoryRequest
  /-- for a vector of `count` elements, when `state` has `held` vectors -/
  | vector (held count : ℕ) : MemoryRequest
  /-- for the copy of that vector at the end of `state`, by `state.push_back` -/
  | copy (held count : ℕ) : MemoryRequest
  /-- for what `where` finds at a cell and for the cell in the table, behind `held` cells -/
  | cell (held : ℕ) : MemoryRequest
  /-- for the text of a table of `cells` cells -/
  | text (cells : ℕ) : MemoryRequest
  deriving DecidableEq, Repr

/-- Which requests for memory are granted, at every call alike. -/
structure Memory : Type where
  grants : MemoryRequest → Bool

/-- The request succeeds or throws. -/
def Memory.allocate (mem : Memory) (request : MemoryRequest) : Except Thrown Unit :=
  if mem.grants request then .ok () else .error .badAlloc

/-- The constructor `std::vector<int>(count, value)`, next to `held` vectors. A vector without
elements needs no memory. -/
def vectorOf (mem : Memory) (held count : ℕ) (value : ℤ) : Except Thrown (List ℤ) :=
  if vectorMaxSize < count then .error .lengthError
  else if count = 0 ∨ mem.grants (.vector held count) then .ok (List.replicate count value)
  else .error .badAlloc

/-- The assignment `v.at(pos) = value`. -/
def vectorSetAt (v : List ℤ) (pos : ℕ) (value : ℤ) : Except Thrown (List ℤ) :=
  if pos < v.length then .ok (v.set pos value) else .error .outOfRange

theorem Memory.allocate_eq_ok_iff {mem : Memory} {request : MemoryRequest} {u : Unit} :
    mem.allocate request = .ok u ↔ mem.grants request = true := by
  rw [allocate]
  split <;> simp [*]

theorem Memory.allocate_ok {mem : Memory} {request : MemoryRequest}
    (h : mem.grants request = true) : mem.allocate request = .ok () :=
  allocate_eq_ok_iff.mpr h

theorem vectorOf_eq_ok_iff {mem : Memory} {held count : ℕ} {value : ℤ} {v : List ℤ} :
    vectorOf mem held count value = .ok v ↔ count ≤ vectorMaxSize ∧
      (count = 0 ∨ mem.grants (.vector held count) = true) ∧ v = List.replicate count value := by
  rw [vectorOf]
  split
  case isTrue hmax =>
    exact ⟨nofun, fun h => absurd h.1 (Nat.not_le_of_lt hmax)⟩
  case isFalse hmax =>
    split
    case isTrue hroom =>
      exact ⟨fun h => ⟨Nat.le_of_not_lt hmax, hroom, by cases h; rfl⟩, fun h => by rw [h.2.2]⟩
    case isFalse hroom => exact ⟨nofun, fun h => absurd h.2.1 hroom⟩

theorem vectorSetAt_eq_ok_iff {v w : List ℤ} {pos : ℕ} {value : ℤ} :
    vectorSetAt v pos value = .ok w ↔ pos < v.length ∧ w = v.set pos value := by
  rw [vectorSetAt]
  split
  case isTrue hlt => exact ⟨fun h => ⟨hlt, by cases h; rfl⟩, fun h => by rw [h.2]⟩
  case isFalse hge => exact ⟨nofun, fun h => absurd h.1 hge⟩

/-- A memory with room for so many `int`s, and for a table of so many cells. -/
def Memory.upTo (limit : ℕ) : Memory where
  grants
    | .piece _ => true
    | .vector held count => (held + 1) * count ≤ limit
    | .copy held count => (held + 2) * count ≤ limit
    | .cell held => held < limit
    | .text cells => cells ≤ limit

/-! ## The board -/

/-- `GridBoard::BoardPiece`. -/
structure BoardPiece : Type where
  name : String
  code : Char
  rowIdx : ℤ
  colIdx : ℤ
  deriving DecidableEq, Repr

/-- A piece's row and column. -/
def BoardPiece.pos (piece : BoardPiece) : ℤ × ℤ := (piece.rowIdx, piece.colIdx)

/-- `GridBoard`. -/
structure GridBoard : Type where
  /-- the number of rows and of columns, `size_` -/
  size : ℕ
  /-- the pieces in the order they were added, `pieces_` -/
  pieces : List BoardPiece
  deriving DecidableEq, Repr

namespace GridBoard

/-- The constructor. -/
def new (size : ℕ) : GridBoard := ⟨size, []⟩

/-- `findPiece`: the first piece of that name. -/
def findPiece (b : GridBoard) (name : String) : Option BoardPiece :=
  b.pieces.find? fun piece => piece.name = name

/-- Writing through the reference that `findPiece(name)` returned. -/
def assignPiece (name : String) (new : BoardPiece) : List BoardPiece → List BoardPiece
  | [] => []
  | piece :: pieces =>
    if piece.name = name then new :: pieces else piece :: assignPiece name new pieces

/-- A call of a member function of the board. -/
abbrev Call (α : Type) : Type := EStateM Thrown GridBoard α

/-- A computation that may fail, as part of a call. -/
def ofExcept {σ α : Type} (x : Except Thrown α) : EStateM Thrown σ α := fun b =>
  match x with
  | .ok a => .ok a b
  | .error e => .error e b

/-- `addPiece`. -/
def addPiece (mem : Memory) (name : String) (code : Char) (rowIdx colIdx : ℤ) : Call Unit := do
  let b ← get
  match b.findPiece name with
  | none =>
    ofExcept (mem.allocate (.piece b.pieces.length))
    set { b with pieces := b.pieces ++ [{ name, code, rowIdx, colIdx : BoardPiece }] }
  | some _ =>
    throw (.runtimeError s!"addPiece failed. Piece with name {name} already exists.")

/-- `getPiecePos`. -/
def getPiecePos (name : String) : Call (ℤ × ℤ) := do
  match (← get).findPiece name with
  | some piece => return (piece.rowIdx, piece.colIdx)
  | none =>
    throw (.runtimeError s!"getPiecePos failed. Piece with name {name} does not exist.")

/-- `movePiece`. -/
def movePiece (name : String) (rowIdxDelta colIdxDelta : ℤ) : Call Unit := do
  let b ← get
  match b.findPiece name with
  | some piece =>
    let rowIdx ← ofExcept (addInt piece.rowIdx rowIdxDelta)
    let colIdx ← ofExcept (addInt piece.colIdx colIdxDelta)
    set { b with pieces := assignPiece name { piece with rowIdx, colIdx } b.pieces }
  | none =>
    throw (.runtimeError s!"movePiece failed. Piece with name {name} does not exist.")

/-- The number of elements of a vector of `state`, a product of `size_t`s. -/
def cells (size : ℕ) : ℕ := size * size % 2 ^ 64

/-- The index passed to `at`, in the arithmetic of `size_t`. -/
def flatIndex (size : ℕ) (piece : BoardPiece) : ℕ :=
  (toSizeT piece.rowIdx * size + toSizeT piece.colIdx) % 2 ^ 64

/-- One round of the loop in `state`: the board as a vector with a 1 at the piece. -/
def stateRound (mem : Memory) (size : ℕ) (state : List (List ℤ)) (piece : BoardPiece) :
    Except Thrown (List (List ℤ)) := do
  let stateP ← vectorOf mem state.length (cells size) 0
  let stateP ← vectorSetAt stateP (flatIndex size piece) 1
  mem.allocate (.copy state.length (cells size))
  return state ++ [stateP]

/-- `state`. -/
def state (mem : Memory) : Call (List (List ℤ)) := do
  let b ← get
  ofExcept (b.pieces.foldlM (stateRound mem b.size) [])

/-- The pieces that `display` finds at a cell, by `where`. -/
def piecesAt (b : GridBoard) (rowIdx colIdx : ℕ) : List BoardPiece :=
  b.pieces.filter fun piece => toSizeT piece.rowIdx = rowIdx ∧ toSizeT piece.colIdx = colIdx

/-- What `display` writes into one cell. -/
def displayCell (mem : Memory) (b : GridBoard) (rowIdx colIdx : ℕ) : Except Thrown Char := do
  mem.allocate (.cell (rowIdx * b.size + colIdx))
  match b.piecesAt rowIdx colIdx with
  | [] => return ' '
  | [piece] => return piece.code
  | _ => throw (.runtimeError "more than one pieces_ at a pos")

/-- `display`: the cells of the table, row by row. -/
def display (mem : Memory) (b : GridBoard) : Except Thrown (List (List Char)) := do
  let table ← (List.range b.size).mapM fun rowIdx =>
    (List.range b.size).mapM fun colIdx => displayCell mem b rowIdx colIdx
  mem.allocate (.text (b.size * b.size))
  return table

/-- `isOnBoard`. -/
def isOnBoard (b : GridBoard) (rowIdx colIdx : ℤ) : Bool :=
  decide (rowIdx ≥ 0) && decide (toSizeT rowIdx < b.size) &&
    decide (colIdx ≥ 0) && decide (toSizeT colIdx < b.size)

/-! ## When they succeed -/

/-- `addPiece` adds the piece, or it throws and leaves the board as it was. -/
theorem addPiece_cases (mem : Memory) (name : String) (code : Char) (rowIdx colIdx : ℤ)
    (b : GridBoard) :
    (addPiece mem name code rowIdx colIdx).run b =
        .ok () { b with pieces := b.pieces ++ [⟨name, code, rowIdx, colIdx⟩] } ∨
      ∃ err, (addPiece mem name code rowIdx colIdx).run b = .error err b := by
  cases hfind : b.findPiece name with
  | some piece =>
    right
    simp only [addPiece, EStateM.run_bind, EStateM.run_get, hfind]
    exact ⟨_, rfl⟩
  | none =>
    by_cases hroom : mem.grants (.piece b.pieces.length) = true
    · left
      simp only [addPiece, EStateM.run_bind, EStateM.run_get, hfind, Memory.allocate_ok hroom]
      rfl
    · refine .inr ⟨.badAlloc, ?_⟩
      simp only [addPiece, EStateM.run_bind, EStateM.run_get, hfind, Memory.allocate,
        if_neg hroom]
      rfl

/-- The position is one of the cells of the board. -/
def OnBoard (size : ℕ) (pos : ℤ × ℤ) : Prop :=
  (0 ≤ pos.1 ∧ pos.1 < size) ∧ 0 ≤ pos.2 ∧ pos.2 < size

instance decidableOnBoard (size : ℕ) (pos : ℤ × ℤ) : Decidable (OnBoard size pos) :=
  inferInstanceAs (Decidable ((_ ∧ _) ∧ _ ∧ _))

/-- The board is small enough for the vectors that `state` builds. -/
def Fits (size : ℕ) : Prop := size * size ≤ vectorMaxSize

/-- A board that fits has fewer rows than there are non-negative `int`s. -/
theorem Fits.size_lt {size : ℕ} (h : Fits size) : size < 2 ^ 31 := by
  by_contra hge
  have hsq : 2 ^ 31 * 2 ^ 31 ≤ size * size := Nat.mul_le_mul (by omega) (by omega)
  have hmax : vectorMaxSize < 2 ^ 31 * 2 ^ 31 := by decide
  exact absurd (Nat.le_trans hsq h) (by omega)

/-- On a board that fits, the comparisons between signed and unsigned numbers mean what
they say. -/
theorem isOnBoard_iff {b : GridBoard} {rowIdx colIdx : ℤ} (hrow : IsInt rowIdx)
    (hcol : IsInt colIdx) :
    isOnBoard b rowIdx colIdx = true ↔ OnBoard b.size (rowIdx, colIdx) := by
  obtain ⟨-, hrow⟩ := hrow
  obtain ⟨-, hcol⟩ := hcol
  simp only [isOnBoard, Bool.and_eq_true, decide_eq_true_eq, OnBoard]
  constructor
  · rintro ⟨⟨⟨hr0, hr⟩, hc0⟩, hc⟩
    rw [toSizeT_of_nonneg hr0 (by omega)] at hr
    rw [toSizeT_of_nonneg hc0 (by omega)] at hc
    omega
  · rintro ⟨⟨hr0, hr⟩, hc0, hc⟩
    rw [toSizeT_of_nonneg hr0 (by omega), toSizeT_of_nonneg hc0 (by omega)]
    omega

/-- The one-hot vector of a piece. -/
def oneHot (size : ℕ) (piece : BoardPiece) : List ℤ :=
  (List.replicate (size * size) 0).set (piece.rowIdx.toNat * size + piece.colIdx.toNat) 1

/-- Row-major indices stay below the number of cells. -/
theorem index_lt {size row col : ℕ} (hrow : row < size) (hcol : col < size) :
    row * size + col < size * size := by
  have hle : (row + 1) * size ≤ size * size := Nat.mul_le_mul_right size hrow
  rw [Nat.succ_mul] at hle
  omega

/-- The vector can be built and has an element at the index. -/
def Accepted (size : ℕ) (piece : BoardPiece) : Prop :=
  cells size ≤ vectorMaxSize ∧ flatIndex size piece < cells size

/-- The vector of an accepted piece. -/
def encoding (size : ℕ) (piece : BoardPiece) : List ℤ :=
  (List.replicate (cells size) 0).set (flatIndex size piece) 1

/-- The two requests for memory of a round of `state` are granted. -/
def RoundRoom (mem : Memory) (size held : ℕ) : Prop :=
  (cells size = 0 ∨ mem.grants (.vector held (cells size)) = true) ∧
    mem.grants (.copy held (cells size)) = true

/-- **There is memory for `state`** with so many pieces. -/
def StateRoom (mem : Memory) (size pieces : ℕ) : Prop := ∀ held < pieces, RoundRoom mem size held

variable {mem : Memory}

theorem stateRound_eq_ok_iff {size : ℕ} {state state' : List (List ℤ)} {piece : BoardPiece} :
    stateRound mem size state piece = .ok state' ↔ Accepted size piece ∧
      RoundRoom mem size state.length ∧ state' = state ++ [encoding size piece] := by
  simp only [stateRound, bind, pure, Except.pure, ForLoop.bind_eq_ok_iff, vectorOf_eq_ok_iff,
    vectorSetAt_eq_ok_iff, Memory.allocate_eq_ok_iff, Except.ok.injEq]
  constructor
  · rintro ⟨_, ⟨hmax, hvector, rfl⟩, _, ⟨hidx, rfl⟩, _, hcopy, rfl⟩
    rw [List.length_replicate] at hidx
    exact ⟨⟨hmax, hidx⟩, ⟨hvector, hcopy⟩, rfl⟩
  · rintro ⟨⟨hmax, hidx⟩, ⟨hvector, hcopy⟩, rfl⟩
    refine ⟨_, ⟨hmax, hvector, rfl⟩, _, ⟨?_, rfl⟩, (), hcopy, rfl⟩
    rw [List.length_replicate]
    exact hidx

/-- What a round throws says what is wrong. -/
theorem stateRound_error {size : ℕ} {state : List (List ℤ)} {piece : BoardPiece} {err : Thrown}
    (h : stateRound mem size state piece = .error err) :
    (err = .badAlloc ∧ ¬ RoundRoom mem size state.length) ∨
      ((err = .lengthError ∨ err = .outOfRange) ∧ ¬ Accepted size piece) := by
  by_cases hmax : vectorMaxSize < cells size
  · simp only [stateRound, vectorOf, if_pos hmax] at h
    cases h
    exact .inr ⟨.inl rfl, fun hacc => absurd hacc.1 (Nat.not_le_of_lt hmax)⟩
  by_cases hvector : cells size = 0 ∨ mem.grants (.vector state.length (cells size)) = true
  · by_cases hidx : flatIndex size piece < (List.replicate (cells size) (0 : ℤ)).length
    · by_cases hcopy : mem.grants (.copy state.length (cells size)) = true
      · simp only [stateRound, vectorOf, if_neg hmax, if_pos hvector, bind, Except.bind,
          vectorSetAt, if_pos hidx, Memory.allocate_ok hcopy] at h
        cases h
      · simp only [stateRound, vectorOf, if_neg hmax, if_pos hvector, bind, Except.bind,
          vectorSetAt, if_pos hidx, Memory.allocate, if_neg hcopy] at h
        cases h
        exact .inl ⟨rfl, fun hroom => hcopy hroom.2⟩
    · simp only [stateRound, vectorOf, if_neg hmax, if_pos hvector, bind, Except.bind,
        vectorSetAt, if_neg hidx] at h
      cases h
      rw [List.length_replicate] at hidx
      exact .inr ⟨.inr rfl, fun hacc => hidx hacc.2⟩
  · simp only [stateRound, vectorOf, if_neg hmax, if_neg hvector] at h
    cases h
    exact .inl ⟨rfl, fun hroom => hvector hroom.1⟩

/-- The loop, with the vectors it starts with. -/
theorem foldlM_stateRound_eq_ok_iff {size : ℕ} {pieces : List BoardPiece}
    {state state' : List (List ℤ)} :
    pieces.foldlM (stateRound mem size) state = .ok state' ↔
      (∀ piece ∈ pieces, Accepted size piece) ∧
      (∀ i < pieces.length, RoundRoom mem size (state.length + i)) ∧
      state' = state ++ pieces.map (encoding size) := by
  induction pieces generalizing state with
  | nil =>
    simp only [List.foldlM_nil, pure, Except.pure, Except.ok.injEq]
    exact ⟨fun h => ⟨nofun, nofun, by rw [h]; simp⟩, fun h => by rw [h.2.2]; simp⟩
  | cons piece pieces ih =>
    simp only [List.foldlM_cons, bind, ForLoop.bind_eq_ok_iff, stateRound_eq_ok_iff, ih]
    constructor
    · rintro ⟨_, ⟨hacc, hroom, rfl⟩, haccs, hrooms, rfl⟩
      refine ⟨List.forall_mem_cons.mpr ⟨hacc, haccs⟩, ?_, by simp⟩
      rintro (_ | i) hi
      · exact hroom
      · have h := hrooms i (Nat.lt_of_succ_lt_succ hi)
        rwa [List.length_append, List.length_singleton, Nat.add_assoc, Nat.add_comm 1 i] at h
    · rintro ⟨haccs, hrooms, rfl⟩
      obtain ⟨hacc, haccs⟩ := List.forall_mem_cons.mp haccs
      refine ⟨_, ⟨hacc, hrooms 0 (Nat.succ_pos _), rfl⟩, haccs, ?_, by simp⟩
      intro i hi
      have h := hrooms (i + 1) (Nat.succ_lt_succ hi)
      rwa [List.length_append, List.length_singleton, Nat.add_assoc, Nat.add_comm 1 i]

theorem foldlM_stateRound_error {size : ℕ} {pieces : List BoardPiece} {state : List (List ℤ)}
    {err : Thrown} (h : pieces.foldlM (stateRound mem size) state = .error err) :
    (err = .badAlloc ∧ ∃ i < pieces.length, ¬ RoundRoom mem size (state.length + i)) ∨
      ((err = .lengthError ∨ err = .outOfRange) ∧ ∃ piece ∈ pieces, ¬ Accepted size piece) := by
  induction pieces generalizing state with
  | nil => cases h
  | cons piece pieces ih =>
    rw [List.foldlM_cons] at h
    cases hround : stateRound mem size state piece with
    | error err' =>
      rw [hround] at h
      cases h
      rcases stateRound_error hround with ⟨herr, hroom⟩ | ⟨herr, hacc⟩
      · exact .inl ⟨herr, 0, Nat.succ_pos _, hroom⟩
      · exact .inr ⟨herr, piece, List.mem_cons_self .., hacc⟩
    | ok state' =>
      rw [hround] at h
      obtain ⟨-, -, rfl⟩ := stateRound_eq_ok_iff.mp hround
      rcases ih h with ⟨herr, i, hi, hroom⟩ | ⟨herr, piece', hmem, hacc⟩
      · refine .inl ⟨herr, i + 1, Nat.succ_lt_succ hi, ?_⟩
        rwa [List.length_append, List.length_singleton, Nat.add_assoc, Nat.add_comm 1 i] at hroom
      · exact .inr ⟨herr, piece', List.mem_cons_of_mem _ hmem, hacc⟩

/-- **When `state` returns, and what**: every piece is accepted and there is memory, and the
result is one vector for each piece. -/
theorem state_eq_ok_iff {b b' : GridBoard} {vs : List (List ℤ)} :
    (state mem).run b = .ok vs b' ↔ (∀ piece ∈ b.pieces, Accepted b.size piece) ∧
      StateRoom mem b.size b.pieces.length ∧ vs = b.pieces.map (encoding b.size) ∧ b' = b := by
  have hloop : b.pieces.foldlM (stateRound mem b.size) [] = .ok vs ↔
      (∀ piece ∈ b.pieces, Accepted b.size piece) ∧ StateRoom mem b.size b.pieces.length ∧
        vs = b.pieces.map (encoding b.size) := by
    rw [foldlM_stateRound_eq_ok_iff]
    simp [StateRoom]
  simp only [state, EStateM.run_bind, EStateM.run_get]
  cases hfold : b.pieces.foldlM (stateRound mem b.size) [] with
  | error err =>
    rw [hfold] at hloop
    exact ⟨nofun, fun h => by cases hloop.mpr ⟨h.1, h.2.1, h.2.2.1⟩⟩
  | ok ws =>
    rw [hfold] at hloop
    constructor
    · intro h
      cases h
      obtain ⟨haccs, hroom, hvs⟩ := hloop.mp rfl
      exact ⟨haccs, hroom, hvs, rfl⟩
    · rintro ⟨haccs, hroom, hvs, rfl⟩
      cases hloop.mpr ⟨haccs, hroom, hvs⟩
      rfl

/-- Otherwise it throws, with the board as it was: `std::bad_alloc` when there is no memory, and
one of the other two when a piece is not accepted. -/
theorem state_throws {b : GridBoard} (h : ¬ ((∀ piece ∈ b.pieces, Accepted b.size piece) ∧
      StateRoom mem b.size b.pieces.length)) :
    ∃ err, (state mem).run b = .error err b ∧
      ((err = .badAlloc ∧ ¬ StateRoom mem b.size b.pieces.length) ∨
        ((err = .lengthError ∨ err = .outOfRange) ∧ ∃ piece ∈ b.pieces, ¬ Accepted b.size piece)) := by
  cases hfold : b.pieces.foldlM (stateRound mem b.size) [] with
  | ok vs =>
    have hstate : (state mem).run b = .ok vs b := by
      simp only [state, EStateM.run_bind, EStateM.run_get, hfold]
      rfl
    obtain ⟨haccs, hroom, -⟩ := state_eq_ok_iff.mp hstate
    exact absurd ⟨haccs, hroom⟩ h
  | error err =>
    refine ⟨err, ?_, ?_⟩
    · simp only [state, EStateM.run_bind, EStateM.run_get, hfold]
      rfl
    · rcases foldlM_stateRound_error hfold with ⟨herr, i, hi, hround⟩ | hpiece
      · rw [List.length_nil, Nat.zero_add] at hround
        exact .inl ⟨herr, fun hroom => hround (hroom i hi)⟩
      · exact .inr hpiece

/-- On a board that fits, a piece on the board is accepted, and encoded at its own cell. -/
theorem accepted_of_onBoard {size : ℕ} {piece : BoardPiece} (hfits : Fits size)
    (hpos : OnBoard size piece.pos) :
    Accepted size piece ∧ encoding size piece = oneHot size piece := by
  obtain ⟨⟨hr0, hr⟩, hc0, hc⟩ := hpos
  have hsize := hfits.size_lt
  simp only [BoardPiece.pos] at hr0 hr hc0 hc
  have hlt : size * size < 2 ^ 64 := Nat.lt_of_le_of_lt hfits (by decide)
  have hidx : piece.rowIdx.toNat * size + piece.colIdx.toNat < size * size :=
    index_lt (by omega) (by omega)
  have hcells : cells size = size * size := Nat.mod_eq_of_lt hlt
  have hflat : flatIndex size piece = piece.rowIdx.toNat * size + piece.colIdx.toNat := by
    rw [flatIndex, toSizeT_of_nonneg hr0 (by omega), toSizeT_of_nonneg hc0 (by omega),
      Nat.mod_eq_of_lt (Nat.lt_trans hidx hlt)]
  rw [Accepted, encoding, oneHot, hcells, hflat]
  exact ⟨⟨hfits, hidx⟩, rfl⟩

/-- **`state` is the one-hot encoding** of a board that fits, with its pieces on it. -/
theorem state_ok {b : GridBoard} (hfits : Fits b.size)
    (hroom : StateRoom mem b.size b.pieces.length)
    (hpos : ∀ piece ∈ b.pieces, OnBoard b.size piece.pos) :
    (state mem).run b = .ok (b.pieces.map (oneHot b.size)) b := by
  refine state_eq_ok_iff.mpr ⟨fun piece hmem => (accepted_of_onBoard hfits (hpos piece hmem)).1,
    hroom, ?_, rfl⟩
  exact List.map_congr_left fun piece hmem =>
    (accepted_of_onBoard hfits (hpos piece hmem)).2.symm

theorem stateRoom_upTo {size pieces limit : ℕ} (h : (pieces + 1) * (size * size) ≤ limit) :
    StateRoom (.upTo limit) size pieces := by
  have hcells : cells size ≤ size * size := Nat.mod_le ..
  have hle : ∀ k ≤ pieces + 1, k * cells size ≤ limit := fun k hk =>
    Nat.le_trans (Nat.mul_le_mul hk hcells) h
  exact fun held hheld => ⟨.inr (decide_eq_true (hle _ (by omega))),
    decide_eq_true (hle _ (by omega))⟩

/-- No two pieces share a cell. -/
def Apart (pieces : List BoardPiece) : Prop := pieces.Pairwise fun x y => x.pos ≠ y.pos

/-- The text of a cell that holds at most one piece. -/
def cellText (b : GridBoard) (rowIdx colIdx : ℕ) : Char :=
  match b.piecesAt rowIdx colIdx with
  | [] => ' '
  | piece :: _ => piece.code

/-- **There is memory for `display`.** -/
def TableRoom (mem : Memory) (size : ℕ) : Prop :=
  (∀ held < size * size, mem.grants (.cell held) = true) ∧ mem.grants (.text (size * size)) = true

theorem displayCell_ok {b : GridBoard} (hsize : b.size < 2 ^ 64) (hroom : TableRoom mem b.size)
    (hpos : ∀ piece ∈ b.pieces, OnBoard b.size piece.pos) (hapart : Apart b.pieces)
    {rowIdx colIdx : ℕ} (hrow : rowIdx < b.size) (hcol : colIdx < b.size) :
    displayCell mem b rowIdx colIdx = .ok (cellText b rowIdx colIdx) := by
  rw [displayCell, cellText, Memory.allocate_ok (hroom.1 _ (index_lt hrow hcol))]
  rcases hat : b.piecesAt rowIdx colIdx with _ | ⟨x, _ | ⟨y, rest⟩⟩
  · rfl
  · rfl
  · -- two pieces at one cell would have one position
    have hmem : ∀ z ∈ b.piecesAt rowIdx colIdx, z.pos = (↑rowIdx, ↑colIdx) := by
      intro z hz
      obtain ⟨hz, hcell⟩ := List.mem_filter.mp hz
      obtain ⟨hrow, hcol⟩ := of_decide_eq_true hcell
      obtain ⟨⟨hr0, hr⟩, hc0, hc⟩ := hpos z hz
      simp only [BoardPiece.pos] at hr0 hr hc0 hc ⊢
      rw [toSizeT_of_nonneg hr0 (by omega)] at hrow
      rw [toSizeT_of_nonneg hc0 (by omega)] at hcol
      rw [Prod.mk.injEq]
      omega
    have htwo : Apart (x :: y :: rest) := hat ▸ hapart.filter _
    have hne : x.pos ≠ y.pos := List.rel_of_pairwise_cons htwo (List.mem_cons_self ..)
    rw [hat] at hmem
    exact absurd ((hmem x (by simp)).trans (hmem y (by simp)).symm) hne

/-- **`display` succeeds** on a board whose pieces are on it and apart. -/
theorem display_ok {b : GridBoard} (hsize : b.size < 2 ^ 64) (hroom : TableRoom mem b.size)
    (hpos : ∀ piece ∈ b.pieces, OnBoard b.size piece.pos) (hapart : Apart b.pieces) :
    display mem b = .ok ((List.range b.size).map fun rowIdx =>
      (List.range b.size).map fun colIdx => cellText b rowIdx colIdx) := by
  have htable := ForLoop.mapM_ok fun rowIdx hrow => ForLoop.mapM_ok fun colIdx hcol =>
    displayCell_ok hsize hroom hpos hapart (List.mem_range.mp hrow) (List.mem_range.mp hcol)
  rw [display, htable, Memory.allocate_ok hroom.2]
  rfl

theorem tableRoom_upTo {size limit : ℕ} (h : size * size ≤ limit) :
    TableRoom (.upTo limit) size :=
  ⟨fun _ hheld => decide_eq_true (Nat.lt_of_lt_of_le hheld h), decide_eq_true h⟩

end GridBoard

end CppPlayground
