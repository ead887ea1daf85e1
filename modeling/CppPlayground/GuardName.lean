import CppPlayground.ActionNames
import CppPlayground.Propositional

/-!
# The names of guards

`guard_name` (`sml_examples/src/dump_uml.cpp`) prints the guard of a transition. A guard is a
leaf, or made by `operator!`, `operator&&` and `operator||` as an instance of `not_`, `and_` or
`or_`. There is one specialisation for each of them, with its own brackets: a disjunction is
always in parentheses, a conjunction never is, and what is negated is in parentheses unless
`is_leaf` says that it is a leaf.

The specialisation for `not_` has no member `is_leaf`, so that the negation of a negation does
not compile. The names that there are mean what the guards do, when they are read as formulas
(`guardName_denotes`).
-/

namespace CppPlayground

namespace GuardName

open ActionNames (baseName)
open Propositional

universe u

/-! ## The source -/

/-- The type of a guard. The operands are wrapped in `zero_wrapper`. -/
inductive Guard (L : Type u) : Type u where
  | leaf (l : L) : Guard L
  | not (g : Guard L) : Guard L
  | and (first second : Guard L) : Guard L
  | or (first second : Guard L) : Guard L
  deriving DecidableEq, Repr

variable {L : Type u}

/-- Leaf guards have distinct base names, which are identifiers. -/
structure Naming (L : Type u) where
  fullName : L → List Char
  ident : ∀ l, isIdent (baseName (fullName l)) = true
  injective : Function.Injective fun l => baseName (fullName l)

/-- `base_name<T>()` of a leaf guard. -/
def Naming.name (naming : Naming L) (l : L) : List Char := baseName (naming.fullName l)

/-- `guard_name<T>::is_leaf`, if there is such a member. -/
def isLeaf : Guard L → Option Bool
  | .leaf _ => some true
  | .or _ _ => some false
  | .and _ _ => some false
  | .not _ => none

/-- `guard_name<T>::name()`, if it compiles. -/
def guardName (naming : Naming L) : Guard L → Option (List Char)
  | .leaf l => some (naming.name l)
  | .or first second => do
    let a ← guardName naming first
    let b ← guardName naming second
    some (['('] ++ a ++ " || ".toList ++ b ++ [')'])
  | .and first second => do
    let a ← guardName naming first
    let b ← guardName naming second
    some (a ++ " && ".toList ++ b)
  | .not g => do
    let leaf ← isLeaf g
    let a ← guardName naming g
    some (if leaf then ['!'] ++ a else "!(".toList ++ a ++ [')'])

/-- What a guard does, for the values of the leaves. -/
def Guard.eval (ρ : L → Bool) : Guard L → Bool
  | .leaf l => ρ l
  | .not g => !g.eval ρ
  | .and first second => first.eval ρ && second.eval ρ
  | .or first second => first.eval ρ || second.eval ρ

/-- A formula over names means what a guard does: they have the same value whenever every name
has the value of its leaf. -/
def Denotes (naming : Naming L) (φ : Formula (List Char)) (g : Guard L) : Prop :=
  ∀ (ρ : L → Bool) (σ : List Char → Bool), (∀ l, σ (naming.name l) = ρ l) → φ.eval σ = g.eval ρ

/-- Every value of the leaves is one of the names. -/
theorem Naming.exists_assignment (naming : Naming L) (ρ : L → Bool) :
    ∃ σ : List Char → Bool, ∀ l, σ (naming.name l) = ρ l :=
  ⟨Function.extend naming.name ρ fun _ => false, fun l => naming.injective.extend_apply ρ _ l⟩

/-! ## The tokens of a name -/

section Tokens

variable (naming : Naming L)

def tokens : Guard L → List Token
  | .leaf l => [.ident (naming.name l)]
  | .or first second => .lparen :: (tokens first ++ .or :: (tokens second ++ [.rparen]))
  | .and first second => tokens first ++ .and :: tokens second
  | .not (.leaf l) => [.not, .ident (naming.name l)]
  | .not g => .not :: .lparen :: (tokens g ++ [.rparen])

variable {naming}

theorem lexes_notParen {text : List Char} {ts : List Token} (h : Lexes text ts) :
    Lexes ("!(".toList ++ text ++ [')']) (.not :: .lparen :: (ts ++ [.rparen])) := by
  intro rest ts' hrest hlex
  simp only [List.append_assoc, List.cons_append, List.nil_append]
  apply lex_not
  apply lex_lparen
  apply h rfl
  exact lex_rparen hlex

/-- **A name gives its tokens.** -/
theorem lexes_guardName {g : Guard L} :
    ∀ {text : List Char}, guardName naming g = some text → Lexes text (tokens naming g) := by
  induction g with
  | leaf l =>
    intro text h
    cases h
    exact lexes_ident (naming.ident l)
  | or first second ihfirst ihsecond =>
    intro text h
    simp only [guardName, Option.bind_eq_bind, Option.bind_eq_some_iff, Option.some_inj] at h
    obtain ⟨a, ha, b, hb, rfl⟩ := h
    intro rest ts hrest hlex
    simp only [tokens, List.append_assoc, List.cons_append, List.nil_append]
    apply lex_lparen
    apply ihfirst ha rfl
    apply lex_or
    apply ihsecond hb rfl
    exact lex_rparen hlex
  | and first second ihfirst ihsecond =>
    intro text h
    simp only [guardName, Option.bind_eq_bind, Option.bind_eq_some_iff, Option.some_inj] at h
    obtain ⟨a, ha, b, hb, rfl⟩ := h
    intro rest ts hrest hlex
    simp only [tokens, List.append_assoc, List.cons_append]
    apply ihfirst ha rfl
    apply lex_and
    exact ihsecond hb hrest hlex
  | not g ih =>
    intro text h
    simp only [guardName, Option.bind_eq_bind, Option.bind_eq_some_iff, Option.some_inj] at h
    obtain ⟨leaf, hleaf, a, ha, rfl⟩ := h
    cases g with
    | leaf l =>
      cases hleaf
      intro rest ts hrest hlex
      exact lex_not (ih ha hrest hlex)
    | not g => cases hleaf
    | and first second =>
      cases hleaf
      exact lexes_notParen (ih ha)
    | or first second =>
      cases hleaf
      exact lexes_notParen (ih ha)

/-! ## The formula of a name -/

/-- The tokens are read as operands of `&&` that hold together exactly if the guard does. -/
theorem factors_tokens (g : Guard L) : ∀ {n : ℕ}, (tokens naming g).length ≤ n →
    ∃ φs, Factors n (tokens naming g) φs ∧
      ∀ σ, φs.all (Formula.eval σ) = g.eval fun l => σ (naming.name l) := by
  induction g with
  | leaf l =>
    intro n hn
    obtain ⟨n, rfl⟩ : ∃ m, n = m + 1 := Nat.exists_eq_add_of_le' hn
    exact ⟨_, .single (reads_ident n _), fun σ => Bool.and_true _⟩
  | or first second ihfirst ihsecond =>
    intro n hn
    simp only [tokens, List.length_cons, List.length_append] at hn
    obtain ⟨n, rfl⟩ : ∃ m, n = m + 1 := ⟨n - 1, by omega⟩
    obtain ⟨φs, hφs, hfirst⟩ := ihfirst (n := n) (by omega)
    obtain ⟨ψs, hψs, hsecond⟩ := ihsecond (n := n) (by omega)
    obtain ⟨φ, hφ, hread⟩ := hφs.orParen hψs
    refine ⟨[φ], .single hread, ?_⟩
    intro σ
    rw [List.all_cons, List.all_nil, Bool.and_true, hφ, hfirst, hsecond]
    rfl
  | and first second ihfirst ihsecond =>
    intro n hn
    simp only [tokens, List.length_cons, List.length_append] at hn
    obtain ⟨φs, hφs, hfirst⟩ := ihfirst (n := n) (by omega)
    obtain ⟨ψs, hψs, hsecond⟩ := ihsecond (n := n) (by omega)
    refine ⟨φs ++ ψs, hφs.append hψs, ?_⟩
    intro σ
    rw [List.all_append, hfirst, hsecond]
    rfl
  | not g ih =>
    intro n hn
    by_cases hleaf : ∃ l, g = .leaf l
    · obtain ⟨l, rfl⟩ := hleaf
      obtain ⟨n, rfl⟩ : ∃ m, n = m + 2 := Nat.exists_eq_add_of_le' hn
      exact ⟨_, .single (reads_ident n _).not, fun σ => Bool.and_true _⟩
    · have htokens : tokens naming g.not = .not :: .lparen :: (tokens naming g ++ [.rparen]) := by
        cases g with
        | leaf l => exact absurd ⟨l, rfl⟩ hleaf
        | not | and | or => rfl
      rw [htokens] at hn ⊢
      simp only [List.length_cons, List.length_append] at hn
      obtain ⟨n, rfl⟩ : ∃ m, n = m + 2 := ⟨n - 2, by omega⟩
      obtain ⟨φs, hφs, hg⟩ := ih (n := n) (by omega)
      obtain ⟨φ, hφ, hread⟩ := hφs.paren
      refine ⟨[φ.not], .single hread.not, ?_⟩
      intro σ
      rw [List.all_cons, List.all_nil, Bool.and_true, Formula.eval, hφ, hg]
      rfl

/-- **A name means what its guard does.** -/
theorem guardName_denotes {g : Guard L} {text : List Char} (h : guardName naming g = some text) :
    ∃ φ, read text = some φ ∧ Denotes naming φ g := by
  obtain ⟨φs, hφs, hg⟩ : ∃ φs, Factors (tokens naming g).length (tokens naming g) φs ∧ _ :=
    factors_tokens g le_rfl
  obtain ⟨φ, hread, hφ⟩ := hφs.read (lexes_guardName h)
  refine ⟨φ, hread, ?_⟩
  intro ρ σ hσ
  rw [hφ, hg]
  congr 1
  exact funext hσ

end Tokens

/-! ## Which guards have a name -/

/-- No negation is directly below a negation. -/
def NoDoubleNegation : Guard L → Prop
  | .leaf _ => True
  | .not (.not _) => False
  | .not g => NoDoubleNegation g
  | .and first second => NoDoubleNegation first ∧ NoDoubleNegation second
  | .or first second => NoDoubleNegation first ∧ NoDoubleNegation second

theorem noDoubleNegation_not_iff {g : Guard L} :
    NoDoubleNegation g.not ↔ (isLeaf g).isSome ∧ NoDoubleNegation g := by
  cases g with
  | leaf | and | or => simp [isLeaf, NoDoubleNegation]
  | not g' => simp [isLeaf, NoDoubleNegation]

theorem isSome_bind_iff {α β γ : Type} {x : Option α} {y : Option β} {f : α → β → γ} :
    (do let a ← x; let b ← y; some (f a b)).isSome = true ↔
      x.isSome = true ∧ y.isSome = true := by
  cases x with
  | none => simp
  | some a => cases y <;> simp

theorem isSome_guardName_iff (naming : Naming L) (g : Guard L) :
    (guardName naming g).isSome = true ↔ NoDoubleNegation g := by
  induction g with
  | leaf l => simp [guardName, NoDoubleNegation]
  | and first second ihfirst ihsecond =>
    rw [NoDoubleNegation, ← ihfirst, ← ihsecond, guardName, isSome_bind_iff]
  | or first second ihfirst ihsecond =>
    rw [NoDoubleNegation, ← ihfirst, ← ihsecond, guardName, isSome_bind_iff]
  | not g ih => rw [noDoubleNegation_not_iff, ← ih, guardName, isSome_bind_iff]

/-- **A guard has a name, which means what the guard does,** exactly if it does not negate a
negation. -/
theorem guardName_denotes_iff (naming : Naming L) (g : Guard L) :
    (∃ text φ, guardName naming g = some text ∧ read text = some φ ∧ Denotes naming φ g) ↔
      NoDoubleNegation g := by
  rw [← isSome_guardName_iff naming, Option.isSome_iff_exists]
  constructor
  · rintro ⟨text, -, htext, -⟩
    exact ⟨text, htext⟩
  · rintro ⟨text, htext⟩
    obtain ⟨φ, hread, hφ⟩ := guardName_denotes htext
    exact ⟨text, φ, htext, hread, hφ⟩

/-- A single leaf guard of the name `guard`. -/
def exampleNaming : Naming Unit where
  fullName := fun _ => "some::extra::ns::guard".toList
  ident := fun _ => by decide +kernel
  injective := fun _ _ _ => rfl

/-- `!!guard`: there is no name. -/
theorem doubleNegation_unnamed :
    ¬ ∃ text φ, guardName exampleNaming (.not (.not (.leaf ()))) = some text ∧
      read text = some φ ∧ Denotes exampleNaming φ (.not (.not (.leaf ()))) := by
  rintro ⟨text, φ, h, -⟩
  cases h

end GuardName

end CppPlayground
