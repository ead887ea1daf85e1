import CppPlayground.GridBoard
import CppPlayground.Machine
import Mathlib.Data.List.Forall2
import Mathlib.Tactic.Push

/-!
# What `GridBoard::state` encodes

`state` builds, for every piece, a vector of `size_ * size_` zeros and sets the element
`row_idx * size_ + col_idx` through `at`, which throws when that index is too large. This is
the only check: a position off the board whose *flattened* index happens to be one of the
cells is encoded as that other cell. On a board of four rows the piece at `(0, 5)` is drawn
nowhere and encoded at `(1, 1)` (`state_aliased`).

`state_faithful_iff` says for which boards the encoding can be trusted.
-/

namespace CppPlayground

namespace GridBoard

/-! ## The boards that calls can build -/

/-- A call of one of the two member functions that change the board. -/
inductive Edit : Type where
  | addPiece (name : String) (code : Char) (rowIdx colIdx : ℤ) : Edit
  | movePiece (name : String) (rowIdxDelta colIdxDelta : ℤ) : Edit
  deriving DecidableEq, Repr

/-- The computation of the call. -/
def Edit.call (mem : Memory) : Edit → Call Unit
  | .addPiece name code rowIdx colIdx => GridBoard.addPiece mem name code rowIdx colIdx
  | .movePiece name rowIdxDelta colIdxDelta => GridBoard.movePiece name rowIdxDelta colIdxDelta

/-- The arguments are `int`s. -/
def Edit.Ints : Edit → Prop
  | .addPiece _ _ rowIdx colIdx => IsInt rowIdx ∧ IsInt colIdx
  | .movePiece _ rowIdxDelta colIdxDelta => IsInt rowIdxDelta ∧ IsInt colIdxDelta

instance decidableInts : (e : Edit) → Decidable e.Ints
  | .addPiece _ _ _ _ => inferInstanceAs (Decidable (_ ∧ _))
  | .movePiece _ _ _ => inferInstanceAs (Decidable (_ ∧ _))

/-- A call whose caller catches what it may throw. Calls in which an `int` overflows are
not considered. -/
def edit (mem : Memory) (b : GridBoard) (e : Edit) : Option GridBoard :=
  if e.Ints then
    match (e.call mem).run b with
    | .ok _ b' => some b'
    | .error .signedOverflow _ => none
    | .error _ b' => some b'
  else none

variable {mem : Memory}

/-- The positions are `int`s, and the size has not changed. -/
structure Built (size : ℕ) (b : GridBoard) : Prop where
  size_eq : b.size = size
  ints : ∀ piece ∈ b.pieces, IsInt piece.rowIdx ∧ IsInt piece.colIdx

theorem mem_assignPiece {name : String} {new piece : BoardPiece} {pieces : List BoardPiece}
    (h : piece ∈ assignPiece name new pieces) : piece = new ∨ piece ∈ pieces := by
  induction pieces with
  | nil => cases h
  | cons p pieces ih =>
    rw [assignPiece] at h
    split at h
    · rcases List.mem_cons.mp h with rfl | h
      · exact .inl rfl
      · exact .inr (List.mem_cons_of_mem _ h)
    · rcases List.mem_cons.mp h with rfl | h
      · exact .inr (List.mem_cons_self ..)
      · exact (ih h).imp_right (List.mem_cons_of_mem _)

theorem addInt_cases (a b : ℤ) :
    (IsInt (a + b) ∧ addInt a b = .ok (a + b)) ∨ addInt a b = .error .signedOverflow := by
  by_cases h : IsInt (a + b)
  · exact .inl ⟨h, if_pos h⟩
  · exact .inr (if_neg h)

theorem built_edit {size : ℕ} {b b' : GridBoard} {e : Edit} (hb : Built size b)
    (h : edit mem b e = some b') : Built size b' := by
  rw [edit] at h
  split at h
  case isFalse => cases h
  case isTrue hints =>
    cases e with
    | addPiece name code rowIdx colIdx =>
      simp only [Edit.call] at h
      rcases addPiece_cases mem name code rowIdx colIdx b with hadd | ⟨err, hadd⟩
      · rw [hadd] at h
        cases h
        refine ⟨hb.size_eq, fun piece hmem => ?_⟩
        rcases List.mem_append.mp hmem with hmem | hmem
        · exact hb.ints piece hmem
        · obtain rfl := List.mem_singleton.mp hmem
          exact hints
      · rw [hadd] at h
        cases err with
        | signedOverflow => cases h
        | runtimeError | outOfRange | lengthError | badAlloc =>
          cases h
          exact hb
    | movePiece name rowIdxDelta colIdxDelta =>
      cases hfind : b.findPiece name with
      | none =>
        simp only [Edit.call, movePiece, EStateM.run_bind, EStateM.run_get, hfind] at h
        cases h
        exact hb
      | some piece =>
        simp only [Edit.call, movePiece, EStateM.run_bind, EStateM.run_get, hfind] at h
        rcases addInt_cases piece.rowIdx rowIdxDelta with ⟨hrow, hr⟩ | hr
        · rcases addInt_cases piece.colIdx colIdxDelta with ⟨hcol, hc⟩ | hc
          · rw [hr, hc] at h
            cases h
            refine ⟨hb.size_eq, fun piece' hmem => ?_⟩
            rcases mem_assignPiece hmem with rfl | hmem
            · exact ⟨hrow, hcol⟩
            · exact hb.ints piece' hmem
          · rw [hr, hc] at h
            cases h
        · rw [hr] at h
          cases h

/-- Whatever calls have been made, the board is one of its size with `int` positions. -/
theorem built_run {size : ℕ} {b : GridBoard} {edits : List Edit}
    (hrun : Machine.run (edit mem) (new size) edits = some b) : Built size b :=
  Machine.run_invariant built_edit ⟨rfl, by nofun⟩ hrun

/-! ## Which positions are accepted -/

/-- The arithmetic of `size_t` agrees with that of the integers modulo `2 ^ 64`. -/
theorem flatIndex_cast (size : ℕ) (piece : BoardPiece) :
    (flatIndex size piece : ℤ) = (piece.rowIdx * size + piece.colIdx) % 2 ^ 64 := by
  have hcast : ∀ i : ℤ, (toSizeT i : ℤ) = i % 2 ^ 64 := fun i =>
    Int.toNat_of_nonneg (Int.emod_nonneg i (by decide))
  have hpow : ((2 ^ 64 : ℕ) : ℤ) = 2 ^ 64 := by decide
  rw [flatIndex, Int.natCast_emod, Int.natCast_add, Int.natCast_mul, hpow, hcast, hcast,
    Int.add_emod, Int.emod_emod, Int.mul_emod, Int.emod_emod, ← Int.mul_emod,
    ← Int.add_emod]

/-- On a board that fits, a piece is accepted exactly when its row-major index, as a
number, is one of the cells. -/
theorem accepted_iff_of_fits {size : ℕ} {piece : BoardPiece} (hfits : Fits size)
    (hrow : IsInt piece.rowIdx) (hcol : IsInt piece.colIdx) :
    Accepted size piece ↔ 0 ≤ piece.rowIdx * size + piece.colIdx ∧
      piece.rowIdx * size + piece.colIdx < size * size := by
  obtain ⟨hr, hr'⟩ := hrow
  obtain ⟨hc, hc'⟩ := hcol
  have hsize := hfits.size_lt
  have hfits' : size * size ≤ vectorMaxSize := hfits
  have hmax : vectorMaxSize < 2 ^ 62 := by decide
  have hcells : cells size = size * size := Nat.mod_eq_of_lt (by omega)
  -- the index is far from the limits of 64 bits
  have hlow : -2 ^ 31 * (size : ℤ) ≤ piece.rowIdx * size :=
    Int.mul_le_mul_of_nonneg_right hr (by omega)
  have hhigh : piece.rowIdx * size ≤ 2 ^ 31 * (size : ℤ) :=
    Int.mul_le_mul_of_nonneg_right (by omega) (by omega)
  have hidx := flatIndex_cast size piece
  have hsq : ((size * size : ℕ) : ℤ) = (size : ℤ) * size := by push_cast; rfl
  rw [Accepted, hcells]
  generalize piece.rowIdx * (size : ℤ) = z at hlow hhigh hidx ⊢
  rw [← hsq]
  omega

/-! ## Faithful encodings -/

/-- Every piece is on the board, as `isOnBoard` has it. -/
def AllOnBoard (b : GridBoard) : Prop :=
  ∀ piece ∈ b.pieces, b.isOnBoard piece.rowIdx piece.colIdx = true

/-- `v` encodes the piece by a single 1, at the index `idx`. -/
structure EncodesAt (b : GridBoard) (piece : BoardPiece) (v : List ℤ) (idx : ℕ) : Prop where
  length_eq : v.length = b.size * b.size
  idx_eq : (idx : ℤ) = piece.rowIdx * b.size + piece.colIdx
  one : v[idx]? = some 1
  zero : ∀ j, j < v.length → j ≠ idx → v[j]? = some 0
  /-- the position can be read off the index -/
  pos : piece.rowIdx = (idx / b.size : ℕ) ∧ piece.colIdx = (idx % b.size : ℕ)
  /-- and the index is that of the cell in which `display` finds the piece -/
  drawn : ∀ row col, row < b.size → col < b.size →
    (piece ∈ b.piecesAt row col ↔ row * b.size + col = idx)

/-- **What `state` is for**: it returns exactly when every piece is on the board, and then
with one encoding for each piece, in the order of the pieces. -/
def Faithful (mem : Memory) (b : GridBoard) : Prop :=
  ((∃ vs b', (state mem).run b = .ok vs b') ↔ AllOnBoard b) ∧
    ∀ vs b', (state mem).run b = .ok vs b' →
      b' = b ∧ List.Forall₂ (fun piece v => ∃ idx, EncodesAt b piece v idx) b.pieces vs

theorem index_div {size row col : ℕ} (hcol : col < size) : (row * size + col) / size = row := by
  rw [Nat.add_comm, Nat.add_mul_div_right _ _ (by omega), Nat.div_eq_of_lt hcol, Nat.zero_add]

theorem index_mod {size row col : ℕ} (hcol : col < size) : (row * size + col) % size = col := by
  rw [Nat.add_comm, Nat.add_mul_mod_self_right, Nat.mod_eq_of_lt hcol]

/-- Different cells have different row-major indices. -/
theorem index_inj {size row col row' col' : ℕ} (hcol : col < size) (hcol' : col' < size) :
    row' * size + col' = row * size + col ↔ row' = row ∧ col' = col := by
  refine ⟨fun h => ⟨?_, ?_⟩, fun ⟨hr, hc⟩ => by rw [hr, hc]⟩
  · have hdiv : (row' * size + col') / size = row' := index_div hcol'
    rw [h, index_div hcol] at hdiv
    exact hdiv.symm
  · have hmod : (row' * size + col') % size = col' := index_mod hcol'
    rw [h, index_mod hcol] at hmod
    exact hmod.symm

theorem encodesAt_oneHot {b : GridBoard} {piece : BoardPiece} (hsize : b.size < 2 ^ 64)
    (hmem : piece ∈ b.pieces) (hpos : OnBoard b.size piece.pos) :
    EncodesAt b piece (oneHot b.size piece)
      (piece.rowIdx.toNat * b.size + piece.colIdx.toNat) := by
  obtain ⟨⟨hr0, hr⟩, hc0, hc⟩ := hpos
  simp only [BoardPiece.pos] at hr0 hr hc0 hc
  obtain ⟨row, hrow⟩ := Int.eq_ofNat_of_zero_le hr0
  obtain ⟨col, hcol⟩ := Int.eq_ofNat_of_zero_le hc0
  rw [hrow] at hr
  rw [hcol] at hc
  have hrlt : row < b.size := by omega
  have hclt : col < b.size := by omega
  have hidx := index_lt hrlt hclt
  simp only [oneHot, hrow, hcol, Int.toNat_natCast]
  refine ⟨by simp, by rw [hrow, hcol]; push_cast; rfl, ?_, ?_, ⟨?_, ?_⟩, ?_⟩
  · simp [hidx]
  · intro j hj hne
    rw [List.length_set, List.length_replicate] at hj
    rw [List.getElem?_set_ne hne.symm, List.getElem?_replicate_of_lt hj]
  · rw [hrow, index_div hclt]
  · rw [hcol, index_mod hclt]
  · intro row' col' _ hcol'
    have hsr : toSizeT piece.rowIdx = row := by
      rw [hrow, toSizeT_of_nonneg (by omega) (by omega), Int.toNat_natCast]
    have hsc : toSizeT piece.colIdx = col := by
      rw [hcol, toSizeT_of_nonneg (by omega) (by omega), Int.toNat_natCast]
    rw [index_inj hclt hcol', piecesAt, List.mem_filter, hsr, hsc, decide_eq_true_eq]
    exact ⟨fun h => ⟨h.2.1.symm, h.2.2.symm⟩, fun h => ⟨hmem, h.1.symm, h.2.symm⟩⟩

/-- The pieces of a built board are on it in the sense of `isOnBoard` when they are. -/
theorem allOnBoard_iff {size : ℕ} {b : GridBoard} (hb : Built size b) :
    AllOnBoard b ↔ ∀ piece ∈ b.pieces, OnBoard b.size piece.pos :=
  forall₂_congr fun piece hmem =>
    isOnBoard_iff (hb.ints piece hmem).1 (hb.ints piece hmem).2

/-- All on a board that fits, and there is memory: the encoding is faithful. -/
theorem faithful_of_fits {size : ℕ} {b : GridBoard} (hb : Built size b) (hall : AllOnBoard b)
    (hfits : Fits b.size) (hroom : StateRoom mem b.size b.pieces.length) : Faithful mem b := by
  have hpos := (allOnBoard_iff hb).mp hall
  have hstate := state_ok hfits hroom hpos
  refine ⟨⟨fun _ => hall, fun _ => ⟨_, _, hstate⟩⟩, fun vs b' h => ?_⟩
  rw [hstate] at h
  cases h
  refine ⟨rfl, List.forall₂_map_right_iff.mpr (List.forall₂_same.mpr fun piece hmem => ?_)⟩
  exact ⟨_, encodesAt_oneHot (Nat.lt_trans hfits.size_lt (by decide)) hmem (hpos piece hmem)⟩

/-- Without pieces there is nothing to encode. -/
theorem faithful_of_no_pieces {b : GridBoard} (hnil : b.pieces = []) : Faithful mem b := by
  have hno : ∀ {p : BoardPiece → Prop}, ∀ piece ∈ b.pieces, p piece := by
    intro p piece hmem
    rw [hnil] at hmem
    cases hmem
  have hroom : StateRoom mem b.size b.pieces.length := by
    intro held hheld
    rw [hnil] at hheld
    cases hheld
  refine ⟨⟨fun _ => hno, fun _ => ⟨_, _, state_eq_ok_iff.mpr ⟨hno, hroom, rfl, rfl⟩⟩⟩, ?_⟩
  intro vs b' h
  obtain ⟨-, -, rfl, rfl⟩ := state_eq_ok_iff.mp h
  rw [hnil]
  exact ⟨rfl, .nil⟩

/-- A vector that could be built on a board that does not fit has the wrong length. -/
theorem fits_of_faithful {b : GridBoard} (hall : AllOnBoard b) (hne : b.pieces ≠ [])
    (hf : Faithful mem b) : Fits b.size ∧ StateRoom mem b.size b.pieces.length := by
  obtain ⟨hiff, henc⟩ := hf
  obtain ⟨vs, b', hstate⟩ := hiff.mpr hall
  obtain ⟨haccs, hroom, rfl, -⟩ := state_eq_ok_iff.mp hstate
  refine ⟨?_, hroom⟩
  obtain ⟨piece, pieces, hpieces⟩ := List.exists_cons_of_ne_nil hne
  have hencs := (henc _ _ hstate).2
  rw [hpieces, List.map_cons] at hencs
  obtain ⟨idx, hidx⟩ := (List.forall₂_cons.mp hencs).1
  have hlen : cells b.size = b.size * b.size := by
    rw [← hidx.length_eq, encoding, List.length_set, List.length_replicate]
  rw [Fits, ← hlen]
  exact (haccs piece (hpieces ▸ List.mem_cons_self ..)).1

/-- **When the encoding can be trusted.** For every size, every memory and every board that
`addPiece` and `movePiece` can build, `state` is faithful if and only if

* when all pieces are on the board, there is none or the vectors can be built, and
* when some piece is off the board, some piece is not accepted (its flattened index is
  not that of a cell) or there is no memory. -/
theorem state_faithful_iff {size : ℕ} {b : GridBoard} {edits : List Edit}
    (hrun : Machine.run (edit mem) (new size) edits = some b) :
    Faithful mem b ↔
      (AllOnBoard b → b.pieces = [] ∨ (Fits size ∧ StateRoom mem size b.pieces.length)) ∧
      (¬ AllOnBoard b → (∃ piece ∈ b.pieces, ¬ Accepted size piece) ∨
        ¬ StateRoom mem size b.pieces.length) := by
  have hb := built_run hrun
  obtain rfl := hb.size_eq
  by_cases hall : AllOnBoard b
  · simp only [hall, true_imp_iff, not_true_eq_false, false_imp_iff, and_true]
    constructor
    · intro hf
      by_cases hnil : b.pieces = []
      · exact .inl hnil
      · exact .inr (fits_of_faithful hall hnil hf)
    · rintro (hnil | ⟨hfits, hroom⟩)
      · exact faithful_of_no_pieces hnil
      · exact faithful_of_fits hb hall hfits hroom
  · simp only [hall, false_imp_iff, not_false_eq_true, true_imp_iff, true_and]
    constructor
    · rintro ⟨hiff, -⟩
      by_contra hno
      push Not at hno
      exact hall (hiff.mp ⟨_, _, state_eq_ok_iff.mpr ⟨hno.1, hno.2, rfl, rfl⟩⟩)
    · intro hbad
      have hthrows : ¬ ∃ vs b', (state mem).run b = .ok vs b' := by
        rintro ⟨vs, b', h⟩
        obtain ⟨haccs, hroom, -⟩ := state_eq_ok_iff.mp h
        rcases hbad with ⟨piece, hmem, hacc⟩ | hno
        · exact hacc (haccs piece hmem)
        · exact hno hroom
      exact ⟨⟨fun h => absurd h hthrows, fun h => absurd h hall⟩,
        fun vs b' h => absurd ⟨vs, b', h⟩ hthrows⟩

/-- A player moved along the first row, and a wall. -/
def playerAndWall : GridBoard := ⟨3, [⟨"Player", 'P', 0, 1⟩, ⟨"Wall", 'W', 1, 2⟩]⟩

theorem state_faithful_playerAndWall :
    Machine.run (edit (.upTo 27)) (new 3) [.addPiece "Player" 'P' 0 0, .addPiece "Wall" 'W' 1 2,
        .addPiece "Wall" 'W' 0 0, .movePiece "Player" 0 1] = some playerAndWall ∧
      Faithful (.upTo 27) playerAndWall := by
  have hrun : Machine.run (edit (.upTo 27)) (new 3) [.addPiece "Player" 'P' 0 0,
      .addPiece "Wall" 'W' 1 2, .addPiece "Wall" 'W' 0 0, .movePiece "Player" 0 1] =
        some playerAndWall := by decide
  refine ⟨hrun, (state_faithful_iff hrun).mpr ⟨fun _ => .inr ⟨?_, ?_⟩, fun h => absurd ?_ h⟩⟩
  · show (3 * 3 : ℕ) ≤ vectorMaxSize
    decide
  · exact stateRoom_upTo (by decide)
  · show ∀ piece ∈ playerAndWall.pieces, _
    decide

/-- **A position off the board is encoded as a cell**: on a board of four rows the piece at
`(0, 5)` gets the vector of `(1, 1)`. -/
theorem state_aliased :
    Machine.run (edit (.upTo 32)) (new 4) [.addPiece "Player" 'P' 0 5] =
        some ⟨4, [⟨"Player", 'P', 0, 5⟩]⟩ ∧
      (state (.upTo 32)).run ⟨4, [⟨"Player", 'P', 0, 5⟩]⟩ =
        .ok [(List.replicate 16 0).set 5 1] ⟨4, [⟨"Player", 'P', 0, 5⟩]⟩ ∧
      ¬ Faithful (.upTo 32) ⟨4, [⟨"Player", 'P', 0, 5⟩]⟩ := by
  refine ⟨by decide, rfl, fun hf => ?_⟩
  have hall := hf.1.mp ⟨_, _, rfl⟩
  exact absurd (hall ⟨"Player", 'P', 0, 5⟩ (List.mem_singleton.mpr rfl)) (by decide)

end GridBoard

end CppPlayground
