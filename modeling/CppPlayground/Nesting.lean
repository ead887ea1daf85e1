import Mathlib.Data.List.Basic

/-!
# Nested blocks in flat output

A program that prints nested blocks writes a flat list of tokens: the beginning and the end
of a block, and lines. What a reader sees as the contents of a block are the lines up to its
end that are not in a block inside.

* `contents` — the contents of a block, read off the tokens that follow its beginning.
* `Body` — tokens that can stand inside a block, and the lines they add to it. Bodies can
  be put after one another, and a block around a body is a body again.
* `HasBlock` — a block with given lines occurs in the output.
-/

namespace Nesting

universe u v

/-- A piece of the output. -/
inductive Token (N : Type u) (L : Type v) : Type (max u v)
  | opened (name : N)
  | closed
  | line (l : L)
  deriving DecidableEq

variable {N : Type u} {L : Type v}

/-- The lines of the block that the tokens are in, up to its end; `n` blocks inside have
been opened and not closed. -/
def contents : ℕ → List (Token N L) → List L
  | _, [] => []
  | n, .opened _ :: ts => contents (n + 1) ts
  | 0, .closed :: _ => []
  | n + 1, .closed :: ts => contents n ts
  | 0, .line l :: ts => l :: contents 0 ts
  | n + 1, .line _ :: ts => contents (n + 1) ts

/-- The tokens are a part of the inside of a block that adds `lines` to it. -/
def Body (ts : List (Token N L)) (lines : List L) : Prop :=
  ∀ rest, contents 0 (ts ++ rest) = lines ++ contents 0 rest ∧
    ∀ n, contents (n + 1) (ts ++ rest) = contents (n + 1) rest

variable {ts ts' : List (Token N L)} {lines lines' : List L} {name : N}

namespace Body

theorem nil : Body ([] : List (Token N L)) [] := fun _ => ⟨rfl, fun _ => rfl⟩

theorem line (l : L) : Body [(.line l : Token N L)] [l] := fun _ => ⟨rfl, fun _ => rfl⟩

theorem append (h : Body ts lines) (h' : Body ts' lines') :
    Body (ts ++ ts') (lines ++ lines') := by
  intro rest
  rw [List.append_assoc, List.append_assoc]
  refine ⟨?_, fun n => ?_⟩
  · rw [(h _).1, (h' _).1]
  · rw [(h _).2, (h' _).2]

/-- Lines in a block inside do not count. -/
theorem block (h : Body ts lines) (name : N) : Body (.opened name :: (ts ++ [.closed])) [] := by
  intro rest
  have hrest : Token.opened name :: (ts ++ [.closed]) ++ rest =
      .opened name :: (ts ++ .closed :: rest) := by simp
  rw [hrest]
  refine ⟨?_, fun n => ?_⟩
  · exact (h _).2 0
  · exact (h _).2 (n + 1)

end Body

/-- A block with this name and these lines occurs. -/
def HasBlock (ts : List (Token N L)) (name : N) (lines : List L) : Prop :=
  ∃ before body after, ts = before ++ .opened name :: (body ++ .closed :: after) ∧
    Body body lines

namespace HasBlock

theorem append_left (h : HasBlock ts name lines) (ts' : List (Token N L)) :
    HasBlock (ts' ++ ts) name lines := by
  obtain ⟨before, body, after, rfl, hbody⟩ := h
  exact ⟨ts' ++ before, body, after, by simp, hbody⟩

theorem append_right (h : HasBlock ts name lines) (ts' : List (Token N L)) :
    HasBlock (ts ++ ts') name lines := by
  obtain ⟨before, body, after, rfl, hbody⟩ := h
  exact ⟨before, body, after ++ ts', by simp, hbody⟩

theorem of_body (h : Body ts lines) (name : N) :
    HasBlock (.opened name :: (ts ++ [.closed])) name lines :=
  ⟨[], ts, [], rfl, h⟩

/-- What is read after the beginning of a block is its lines. -/
theorem exists_contents (h : HasBlock ts name lines) :
    ∃ before rest, ts = before ++ .opened name :: rest ∧ contents 0 rest = lines := by
  obtain ⟨before, body, after, rfl, hbody⟩ := h
  refine ⟨before, _, rfl, ?_⟩
  rw [(hbody _).1, contents, List.append_nil]

variable [DecidableEq N] [DecidableEq L]

/-- If a block occurs only once, its lines are what is read after any beginning of it. -/
theorem contents_eq (h : HasBlock ts name lines) (hone : ts.count (.opened name) = 1)
    {before rest : List (Token N L)} (hts : ts = before ++ .opened name :: rest) :
    contents 0 rest = lines := by
  obtain ⟨before', rest', hts', hlines⟩ := h.exists_contents
  -- the beginning of the block occurs neither before nor after itself
  have hnot : ∀ {b r}, ts = b ++ .opened name :: r → .opened name ∉ b ∧ .opened name ∉ r := by
    rintro b r rfl
    rw [List.count_append, List.count_cons_self] at hone
    exact ⟨List.count_eq_zero.mp (by omega), List.count_eq_zero.mp (by omega)⟩
  have heq := hts.symm.trans hts'
  rw [List.append_cons_inj_of_notMem (hnot hts).1 (hnot hts).2] at heq
  rw [heq.2.2, hlines]

end HasBlock

end Nesting
