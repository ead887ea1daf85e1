import CppPlayground.GridBoardState
import CppPlayground.GridWorldRuns

/-!
# What a throwing `step` leaves behind

`step` refuses a finished game before it does anything. But it moves the player before it
asks the board for its encoding, and that can throw too: the constructor takes every size,
while its pieces stand at fixed positions that need four rows, and the encoding of a large
board does not fit into a vector, or not into the memory. The caller then catches an exception
from a step that has been made.

The class has this defect on exactly those boards on which the player can move at all and
some encoding is impossible (`throws_untouched_iff`). The interesting direction is that
there is no such board that works by luck: where the number of cells wraps around, the
player walks down the first column until the flattened index of its own cell is too large.
-/

namespace CppPlayground

namespace GridWorld

open GridBoard (OnBoard Fits StateRoom Accepted cells flatIndex)

/-- Every piece is where it was, and so is the status. -/
def Untouched (g g' : GridWorld) : Prop :=
  g'.board.pieces.map BoardPiece.pos = g.board.pieces.map BoardPiece.pos ∧ g'.status = g.status

/-- In every state that `step` calls lead to, throwing ones included, a `step` that throws
leaves the game untouched. -/
def ThrowsUntouched (mem : Memory) (size : ℕ) : Prop :=
  ∀ g, new mem size = .ok g → ∀ calls s, Machine.run (play mem) ⟨g, []⟩ calls = some s →
    ∀ order action err g', (step mem order action).run s.world = .error err g' →
      err ≠ .signedOverflow → Untouched s.world g'

variable {mem : Memory} {size : ℕ} {c : Cell}

theorem Untouched.refl (g : GridWorld) : Untouched g g := ⟨rfl, rfl⟩

/-! ## Boards on which it holds -/

/-- On a board of at most one row some piece is off the board. -/
theorem not_accepted_tiny (hsize : size ≤ 1) (c : Cell) :
    ¬ ∀ piece ∈ (boardAt size c).pieces, Accepted size piece := by
  intro haccs
  have hgoal := (haccs ⟨"Goal", '+', 3, 3⟩ (by simp [boardAt])).2
  obtain rfl | rfl : size = 0 ∨ size = 1 := by omega
  · exact absurd hgoal (by decide)
  · exact absurd hgoal (by decide)

/-- And the player cannot move, so that a step throws and leaves the world as it was. -/
theorem step_tiny (mem : Memory) (hsize : size ≤ 1) (order : EvalOrder) (action : Action) :
    ∃ err, (step mem order action).run (worldAt size (0, 0)) =
      .error err (worldAt size (0, 0)) := by
  have hint : IsInt (0 + (mapAction action).1) ∧ IsInt (0 + (mapAction action).2) := by
    cases action <;> decide
  have hstay : move size (0, 0) action = (0, 0) := by
    obtain rfl | rfl : size = 0 ∨ size = 1 := by omega
    · cases action <;> decide
    · cases action <;> decide
  obtain ⟨err, hstate, -⟩ := @GridBoard.state_throws mem (boardAt size (0, 0))
    fun h => not_accepted_tiny hsize _ h.1
  refine ⟨err, ?_⟩
  rw [step_eq_stepResult hint rfl, hstay]
  cases order with
  | evaluateFirst =>
    simp only [stepResult, EStateM.run_bind, evaluate_run, worldAt, onBoard_throws hstate]
  | stateFirst =>
    simp only [stepResult, EStateM.run_bind, onBoard_throws hstate]
    rfl

theorem throwsUntouched_tiny (hsize : size ≤ 1) : ThrowsUntouched mem size := by
  intro g hnew calls s hrun order action err g' hthrow _
  obtain rfl := eq_of_new hnew
  have hworld : s.world = worldAt size (0, 0) := by
    refine Machine.run_invariant (I := fun s => s.world = worldAt size (0, 0)) ?_ rfl hrun
    rintro ⟨world, rewards⟩ call s' rfl h
    obtain ⟨err, hstep⟩ := step_tiny mem hsize call.1 call.2
    simp only [play, hstep] at h
    cases h
    rfl
  obtain ⟨err', hstep⟩ := step_tiny mem hsize order action
  rw [hworld, hstep] at hthrow
  cases hthrow
  rw [hworld]
  exact Untouched.refl _

theorem throwsUntouched_of_playable (hplay : Playable mem size) : ThrowsUntouched mem size := by
  intro g hnew calls s hrun order action err g' hthrow _
  obtain ⟨world, rewards⟩ := s
  obtain ⟨c, hc, rfl, -⟩ :=
    Machine.run_invariant (reached_play hplay) (reached_new hplay.four hnew) hrun
  by_cases hgoing : statusAt c = .ongoing
  · rw [step_ongoing hplay hc hgoing] at hthrow
    cases hthrow
  · rw [step_finished hgoing] at hthrow
    cases hthrow
    exact Untouched.refl _

/-! ## A walk down the first column -/

/-- When the board can be encoded, the rest of a step returns. -/
theorem stepResult_returns {vs : List (List ℤ)}
    (hstate : (GridBoard.state mem).run (boardAt size c) = .ok vs (boardAt size c))
    (order : EvalOrder) : ∃ result,
      (stepResult mem order).run ⟨boardAt size c, .ongoing⟩ = .ok result (worldAt size c) := by
  cases order with
  | evaluateFirst =>
    simp only [stepResult, EStateM.run_bind, evaluate_run, worldAt,
      onBoard_run hstate (statusAt c), EStateM.run_pure]
    exact ⟨_, rfl⟩
  | stateFirst =>
    simp only [stepResult, EStateM.run_bind, onBoard_run hstate, evaluate_run, EStateM.run_pure]
    exact ⟨_, rfl⟩

/-- The cells of the first column are free and not where the game ends. -/
theorem move_down {r : ℕ} (hr : r + 1 < size) :
    move size (r, 0) .down = (((r + 1 : ℕ) : ℤ), 0) := by
  have hfree : Free size (neighbour (r, 0) .down) := by
    refine ⟨by simp [neighbour, mapAction, wall], ?_⟩
    simp only [neighbour, mapAction, OnBoard]
    omega
  rw [move, if_pos hfree]
  simp only [neighbour, mapAction]
  push_cast
  rfl

theorem statusAt_firstColumn (r : ℤ) : statusAt (r, 0) = .ongoing :=
  statusAt_eq_ongoing.mpr ⟨by simp [pit], by simp [goal]⟩

/-- Where no throwing step has moved the player, the player can walk down the first column
step by step, and on the way all pieces are accepted and there is memory for them. -/
theorem walk_down (hnew : new mem size = .ok (worldAt size (0, 0))) (h : ThrowsUntouched mem size) :
    ∀ r : ℕ, r < size → r ≤ 2 ^ 30 →
      (∃ calls s, Machine.run (play mem) ⟨worldAt size (0, 0), []⟩ calls = some s ∧
        s.world = worldAt size (r, 0)) ∧
      (0 < r → (∀ piece ∈ (boardAt size (r, 0)).pieces, Accepted size piece) ∧
        StateRoom mem size 4) := by
  intro r
  induction r with
  | zero =>
    intro _ _
    exact ⟨⟨[], _, rfl, rfl⟩, fun h0 => absurd h0 (Nat.lt_irrefl 0)⟩
  | succ r ih =>
    intro hlt hle
    obtain ⟨⟨calls, s, hrun, hs⟩, -⟩ := ih (by omega) (by omega)
    have hint : IsInt ((r : ℤ) + (mapAction .down).1) ∧ IsInt ((0 : ℤ) + (mapAction .down).2) := by
      simp only [IsInt, mapAction]
      omega
    have hstep : (step mem .evaluateFirst .down).run (worldAt size (r, 0)) =
        (stepResult mem .evaluateFirst).run ⟨boardAt size (((r + 1 : ℕ) : ℤ), 0), .ongoing⟩ := by
      rw [step_eq_stepResult hint (statusAt_firstColumn r), move_down hlt]
    have hroom : (∀ piece ∈ (boardAt size (((r + 1 : ℕ) : ℤ), 0)).pieces, Accepted size piece) ∧
        StateRoom mem size 4 := by
      by_contra hno
      obtain ⟨err, hstate, herr⟩ := GridBoard.state_throws hno
      obtain ⟨st, hthrow⟩ := stepResult_throws hstate .evaluateFirst
      have hne : err ≠ .signedOverflow := by
        rcases herr with ⟨rfl, -⟩ | ⟨rfl | rfl, -⟩
        · decide
        · decide
        · decide
      obtain ⟨hpos, -⟩ := h _ hnew calls s hrun .evaluateFirst .down err _
        (by rw [hs, hstep, hthrow]) hne
      -- the player has moved
      rw [hs] at hpos
      have hplayer := (List.cons.inj hpos).1
      simp only [BoardPiece.pos, Prod.mk.injEq] at hplayer
      omega
    refine ⟨?_, fun _ => hroom⟩
    obtain ⟨result, hret⟩ := stepResult_returns
      (GridBoard.state_eq_ok_iff.mpr ⟨hroom.1, hroom.2, rfl, rfl⟩) .evaluateFirst
    refine ⟨calls ++ [(.evaluateFirst, .down)], ⟨worldAt size (((r + 1 : ℕ) : ℤ), 0),
      s.rewards ++ [result.1]⟩, ?_, rfl⟩
    rw [Machine.run_concat hrun, play, hs, hstep, hret]

/-! ## When a throwing step leaves the game untouched -/

/-- The flattened index of the player on its way down. -/
theorem flatIndex_firstColumn {r : ℕ} (hr : r * size < 2 ^ 64) (hr' : r < 2 ^ 31) :
    flatIndex size ⟨"Player", 'P', r, 0⟩ = r * size := by
  have hrow : toSizeT (r : ℤ) = r := by
    rw [toSizeT_of_nonneg (by omega) (by omega), Int.toNat_natCast]
  have hcol : toSizeT 0 = 0 := rfl
  simp only [flatIndex, hrow, hcol, Nat.add_zero, Nat.mod_eq_of_lt hr]

/-- On a board that does not fit the walk ends badly. -/
theorem not_throwsUntouched (hnew : new mem size = .ok (worldAt size (0, 0)))
    (hlt : size < 2 ^ 64) (hsize : 2 ≤ size) (hfits : ¬ Fits size) :
    ¬ ThrowsUntouched mem size := by
  intro h
  have hplayer : ∀ r : ℕ, 0 < r → r < size → r ≤ 2 ^ 30 →
      cells size ≤ vectorMaxSize ∧ flatIndex size ⟨"Player", 'P', r, 0⟩ < cells size :=
    fun r h0 hr hle => ((walk_down hnew h r hr hle).2 h0).1 _ (List.mem_cons_self ..)
  have hmax : vectorMaxSize < 2 ^ 61 := by decide
  have hfits' : vectorMaxSize < size * size := Nat.lt_of_not_le hfits
  -- the number of cells has wrapped around, so there are many rows
  have hfirst := hplayer 1 (by omega) (by omega) (by decide)
  rw [flatIndex_firstColumn (by omega) (by decide), Nat.one_mul] at hfirst
  have hwrap : 2 ^ 64 ≤ size * size := by
    by_contra hno
    have hcells : cells size = size * size := Nat.mod_eq_of_lt (by omega)
    omega
  have hrows : 2 ^ 32 ≤ size := by
    by_contra hno
    have hsq : size * size < 2 ^ 32 * 2 ^ 32 := Nat.mul_lt_mul'' (by omega) (by omega)
    omega
  -- the first row whose cells come after all elements of the vector
  have hdiv : cells size / size < 2 ^ 29 := by
    rw [Nat.div_lt_iff_lt_mul (by omega)]
    omega
  have hmod := Nat.div_add_mod (cells size) size
  have hmodlt := Nat.mod_lt (cells size) (show 0 < size by omega)
  generalize cells size / size = r at hdiv hmod
  have hindex : (r + 1) * size = size * r + size := by rw [Nat.succ_mul, Nat.mul_comm]
  have hlast := hplayer (r + 1) (by omega) (by omega) (by omega)
  rw [flatIndex_firstColumn (by omega) (by omega)] at hlast
  omega

/-- **When a throwing step leaves the game untouched**: on exactly those boards that have at
most one row, or at least four and an encoding that fits into a vector and into the memory. -/
theorem throws_untouched_iff (hlt : size < 2 ^ 64) {g : GridWorld} (hnew : new mem size = .ok g) :
    ThrowsUntouched mem size ↔ size ≤ 1 ∨ (4 ≤ size ∧ Fits size ∧ StateRoom mem size 4) := by
  obtain rfl := eq_of_new hnew
  constructor
  · intro h
    by_cases htiny : size ≤ 1
    · exact .inl htiny
    have hfits : Fits size := by
      by_contra hno
      exact not_throwsUntouched hnew hlt (by omega) hno h
    obtain ⟨haccs, hroom⟩ := (walk_down hnew h 1 (by omega) (by decide)).2 (by decide)
    refine .inr ⟨?_, hfits, hroom⟩
    -- on two or three rows the goal is not on the board
    by_contra hfew
    have hgoal := (haccs ⟨"Goal", '+', 3, 3⟩ (by simp [boardAt])).2
    obtain rfl | rfl : size = 2 ∨ size = 3 := by omega
    · exact absurd hgoal (by decide)
    · exact absurd hgoal (by decide)
  · rintro (htiny | ⟨hsize, hfits, hroom⟩)
    · exact throwsUntouched_tiny htiny
    · exact throwsUntouched_of_playable ⟨hsize, hfits, hroom⟩

theorem throws_untouched_four :
    (4 : ℕ) < 2 ^ 64 ∧ new (.upTo 80) 4 = .ok (worldAt 4 (0, 0)) ∧ ThrowsUntouched (.upTo 80) 4 :=
  ⟨by decide, rfl, (throws_untouched_iff (by decide) (g := worldAt 4 (0, 0)) rfl).mpr
    (.inr ⟨Nat.le_refl 4, show (4 * 4 : ℕ) ≤ vectorMaxSize by decide,
      GridBoard.stateRoom_upTo (by decide)⟩)⟩

/-- **A step that throws after the move**: on a board of three rows the first step to the
right moves the player and then throws `std::out_of_range`. -/
theorem throws_after_move :
    new (.upTo 45) 3 = .ok (worldAt 3 (0, 0)) ∧
      (step (.upTo 45) .evaluateFirst .right).run (worldAt 3 (0, 0)) =
        .error .outOfRange (worldAt 3 (0, 1)) ∧
      ¬ Untouched (worldAt 3 (0, 0)) (worldAt 3 (0, 1)) ∧ ¬ ThrowsUntouched (.upTo 45) 3 := by
  have hstep : (step (.upTo 45) .evaluateFirst .right).run (worldAt 3 (0, 0)) =
      .error .outOfRange (worldAt 3 (0, 1)) := rfl
  have htouched : ¬ Untouched (worldAt 3 (0, 0)) (worldAt 3 (0, 1)) := fun h =>
    absurd h.1 (by decide)
  exact ⟨rfl, hstep, htouched, fun h =>
    htouched (h _ rfl [] _ rfl .evaluateFirst .right _ _ hstep (by decide))⟩

end GridWorld

end CppPlayground
