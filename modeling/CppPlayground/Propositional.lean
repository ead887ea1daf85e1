import Mathlib.Data.List.TakeWhile

/-!
# Formulas in the syntax of C++

Propositional formulas with variables of any type, and a reader for their usual notation: `!`
binds tighter than `&&`, `&&` tighter than `||`, parentheses group, and a variable is an
identifier.

* `lex` — a text as a list of tokens. `Lexes` says that a text gives some tokens in front of
  anything that does not continue its last identifier.
* `unary`, `conjunction`, `disjunction` — the three levels of the grammar. A reader takes tokens
  off the front and returns the formula and what is left. The fuel of `unary` bounds the nesting
  of `!` and parentheses; the number of tokens is always enough for it.
* `Factors` — tokens that are read as a chain of operands of `&&`. Chains can be put together
  (`Factors.append`), and the formula that is read means that all operands hold
  (`Factors.conjunction`).
-/

namespace Propositional

universe u

/-- A formula over variables. -/
inductive Formula (V : Type u) : Type u where
  | var (v : V) : Formula V
  | not (φ : Formula V) : Formula V
  | and (φ ψ : Formula V) : Formula V
  | or (φ ψ : Formula V) : Formula V
  deriving DecidableEq, Repr

/-- The value of a formula. -/
def Formula.eval {V : Type u} (σ : V → Bool) : Formula V → Bool
  | .var v => σ v
  | .not φ => !φ.eval σ
  | .and φ ψ => φ.eval σ && ψ.eval σ
  | .or φ ψ => φ.eval σ || ψ.eval σ

/-! ## Tokens -/

inductive Token where
  | ident (name : List Char) : Token
  | not : Token
  | and : Token
  | or : Token
  | lparen : Token
  | rparen : Token
  deriving DecidableEq, Repr

def isIdentStart (c : Char) : Bool := c.isAlpha || c == '_'

def isIdentChar (c : Char) : Bool := c.isAlphanum || c == '_'

/-- A text is an identifier. -/
def isIdent : List Char → Bool
  | [] => false
  | c :: cs => isIdentStart c && cs.all isIdentChar

/-- The first token of a text, and the text after it. -/
def nextToken : List Char → Option (Token × List Char)
  | '!' :: cs => some (.not, cs)
  | '(' :: cs => some (.lparen, cs)
  | ')' :: cs => some (.rparen, cs)
  | '&' :: '&' :: cs => some (.and, cs)
  | '|' :: '|' :: cs => some (.or, cs)
  | c :: cs =>
    if isIdentStart c then
      some (.ident (c :: cs.takeWhile isIdentChar), cs.dropWhile isIdentChar)
    else none
  | [] => none

theorem length_nextToken {text rest : List Char} {t : Token}
    (h : nextToken text = some (t, rest)) : rest.length < text.length := by
  unfold nextToken at h
  split at h
  case h_6 c cs _ _ _ _ _ =>
    split at h
    · cases h
      have := (List.dropWhile_suffix isIdentChar (l := cs)).length_le
      rw [List.length_cons]
      omega
    · cases h
  case h_7 => cases h
  all_goals
    cases h
    simp only [List.length_cons]
    omega

/-- The tokens of a text; there may be spaces before each of them and at the end. -/
def lex (text : List Char) : Option (List Token) :=
  match _h : nextToken (text.dropWhile (· = ' ')) with
  | some (t, rest) => (lex rest).map (t :: ·)
  | none => if text.dropWhile (· = ' ') = [] then some [] else none
termination_by text.length
decreasing_by
  have hlt := length_nextToken _h
  have hle := (List.dropWhile_suffix (fun c => decide (c = ' ')) (l := text)).length_le
  omega

theorem lex_nil : lex [] = some [] := by
  rw [lex]
  rfl

theorem lex_cons {text rest : List Char} {t : Token} {ts : List Token}
    (h : nextToken (text.dropWhile (· = ' ')) = some (t, rest)) (hrest : lex rest = some ts) :
    lex text = some (t :: ts) := by
  rw [lex]
  split
  · rename_i t' rest' h'
    rw [h, Option.some_inj, Prod.mk.injEq] at h'
    obtain ⟨rfl, rfl⟩ := h'
    rw [hrest, Option.map_some]
  · rename_i h'
    rw [h] at h'
    cases h'

theorem lex_space {text : List Char} : lex (' ' :: text) = lex text := by
  rw [lex, lex]
  rfl

theorem nextToken_ident {c : Char} (hc : isIdentStart c = true) (cs : List Char) :
    nextToken (c :: cs) =
      some (.ident (c :: cs.takeWhile isIdentChar), cs.dropWhile isIdentChar) := by
  unfold nextToken
  split
  case h_6 c' cs' _ _ _ _ _ heq =>
    obtain ⟨rfl, rfl⟩ := List.cons.inj heq
    rw [if_pos hc]
  case h_7 heq => cases heq
  -- no operator or bracket starts an identifier
  all_goals
    rename_i heq
    obtain ⟨rfl, -⟩ := List.cons.inj heq
    exact absurd hc (by decide)

/-- A text gives tokens, in front of anything that does not continue its last identifier. -/
def Lexes (text : List Char) (ts : List Token) : Prop :=
  ∀ {rest : List Char} {ts' : List Token}, rest.head?.any isIdentChar = false →
    lex rest = some ts' → lex (text ++ rest) = some (ts ++ ts')

theorem lexes_ident {name : List Char} (h : isIdent name = true) : Lexes name [.ident name] := by
  intro rest ts' hrest hlex
  cases name with
  | nil => cases h
  | cons c cs =>
    rw [isIdent, Bool.and_eq_true, List.all_eq_true] at h
    have hspace : decide (c = ' ') = false := by
      rw [decide_eq_false_iff_not]
      rintro rfl
      exact absurd h.1 (by decide)
    have htake : rest.takeWhile isIdentChar = [] := by
      cases rest with
      | nil => rfl
      | cons d rest => exact List.takeWhile_cons_of_neg (Bool.eq_false_iff.mp hrest)
    have hdrop : rest.dropWhile isIdentChar = rest := by
      cases rest with
      | nil => rfl
      | cons d rest => exact List.dropWhile_cons_of_neg (Bool.eq_false_iff.mp hrest)
    apply lex_cons _ hlex
    rw [List.cons_append, List.dropWhile_cons_of_neg (by simp [hspace]), nextToken_ident h.1,
      List.takeWhile_append_of_pos h.2, List.dropWhile_append_of_pos h.2, htake, hdrop,
      List.append_nil]

theorem lex_not {rest : List Char} {ts : List Token} (h : lex rest = some ts) :
    lex ('!' :: rest) = some (.not :: ts) :=
  lex_cons rfl h

theorem lex_lparen {rest : List Char} {ts : List Token} (h : lex rest = some ts) :
    lex ('(' :: rest) = some (.lparen :: ts) :=
  lex_cons rfl h

theorem lex_rparen {rest : List Char} {ts : List Token} (h : lex rest = some ts) :
    lex (')' :: rest) = some (.rparen :: ts) :=
  lex_cons rfl h

/-- An operator between spaces. -/
theorem lex_and {rest : List Char} {ts : List Token} (h : lex rest = some ts) :
    lex (" && ".toList ++ rest) = some (.and :: ts) :=
  lex_cons rfl (lex_space.trans h)

theorem lex_or {rest : List Char} {ts : List Token} (h : lex rest = some ts) :
    lex (" || ".toList ++ rest) = some (.or :: ts) :=
  lex_cons rfl (lex_space.trans h)

/-! ## The grammar -/

/-- Takes tokens off the front. -/
abbrev Reader : Type := List Token → Option (Formula (List Char) × List Token)

/-- The operands after the first one, each behind the operator, as many as there are; the formula
is that of what has been read. -/
def chainRest (op : Token) (mk : Formula (List Char) → Formula (List Char) → Formula (List Char))
    (item : Reader) : ℕ → Formula (List Char) → Reader
  | _, φ, [] => some (φ, [])
  | 0, _, _ :: _ => none
  | k + 1, φ, t :: ts =>
    if t = op then (item ts).bind fun r => chainRest op mk item k (mk φ r.1) r.2
    else some (φ, t :: ts)

/-- Operands of an operator that associates to the left. -/
def chain (op : Token) (mk : Formula (List Char) → Formula (List Char) → Formula (List Char))
    (item : Reader) : Reader := fun ts =>
  (item ts).bind fun r => chainRest op mk item r.2.length r.1 r.2

/-- Operands of `&&`. -/
def conjunction (item : Reader) : Reader := chain .and .and item

/-- Operands of `||`. -/
def disjunction (item : Reader) : Reader := chain .or .or (conjunction item)

/-- A closing parenthesis has to come next. -/
def closed : Formula (List Char) × List Token → Option (Formula (List Char) × List Token)
  | (φ, .rparen :: ts) => some (φ, ts)
  | _ => none

/-- A variable, a formula in parentheses, or a negation. -/
def unary : ℕ → Reader
  | 0, _ => none
  | _ + 1, .ident name :: ts => some (.var name, ts)
  | n + 1, .not :: ts => (unary n ts).map fun r => (.not r.1, r.2)
  | n + 1, .lparen :: ts => (disjunction (unary n) ts).bind closed
  | _ + 1, _ => none

/-- The formula that all the tokens are read as. -/
def parse (ts : List Token) : Option (Formula (List Char)) :=
  match disjunction (unary ts.length) ts with
  | some (φ, []) => some φ
  | _ => none

/-- The formula that a text is read as. -/
def read (text : List Char) : Option (Formula (List Char)) := (lex text).bind parse

/-! ## Reading operands -/

/-- Tokens are read as a formula, whatever follows. -/
def Reads (item : Reader) (ts : List Token) (φ : Formula (List Char)) : Prop :=
  ∀ rest, item (ts ++ rest) = some (φ, rest)

theorem reads_ident (n : ℕ) (name : List Char) :
    Reads (unary (n + 1)) [.ident name] (.var name) :=
  fun _ => rfl

theorem Reads.not {n : ℕ} {ts : List Token} {φ : Formula (List Char)} (h : Reads (unary n) ts φ) :
    Reads (unary (n + 1)) (.not :: ts) φ.not := by
  intro rest
  rw [List.cons_append, unary, h rest]
  rfl

/-- Nothing more is read where the operator does not follow. -/
theorem chainRest_end {op : Token}
    {mk : Formula (List Char) → Formula (List Char) → Formula (List Char)} {item : Reader} {k : ℕ}
    {φ : Formula (List Char)} {rest : List Token} (hrest : rest.head? ≠ some op)
    (hk : rest.length ≤ k) : chainRest op mk item k φ rest = some (φ, rest) := by
  cases rest with
  | nil => cases k <;> rfl
  | cons t rest =>
    cases k with
    | zero => cases hk
    | succ k =>
      have hne : t ≠ op := fun heq => hrest (congrArg some heq)
      rw [chainRest, if_neg hne]

theorem chainRest_op {op : Token}
    {mk : Formula (List Char) → Formula (List Char) → Formula (List Char)} {item : Reader} {k : ℕ}
    {φ ψ : Formula (List Char)} {ts rest : List Token} (h : item ts = some (ψ, rest)) :
    chainRest op mk item (k + 1) φ (op :: ts) = chainRest op mk item k (mk φ ψ) rest := by
  rw [chainRest, if_pos rfl, h, Option.bind_some]

/-! ## Chains of `&&` -/

/-- Tokens are operands of `&&`, which are read as the given formulas. -/
inductive Factors (n : ℕ) : List Token → List (Formula (List Char)) → Prop
  | single {ts : List Token} {φ : Formula (List Char)} (h : Reads (unary n) ts φ) :
      Factors n ts [φ]
  | cons {ts ts' : List Token} {φ : Formula (List Char)} {φs : List (Formula (List Char))}
      (h : Reads (unary n) ts φ) (hs : Factors n ts' φs) :
      Factors n (ts ++ .and :: ts') (φ :: φs)

variable {n : ℕ}

theorem Factors.append {ts ts' : List Token} {φs ψs : List (Formula (List Char))}
    (h : Factors n ts φs) (h' : Factors n ts' ψs) : Factors n (ts ++ .and :: ts') (φs ++ ψs) := by
  induction h with
  | single hφ => exact .cons hφ h'
  | cons hφ _ ih =>
    rw [List.append_assoc, List.cons_append]
    exact .cons hφ ih

/-- The conjunction of a formula and further ones, from the left. -/
def conj (φ : Formula (List Char)) (φs : List (Formula (List Char))) : Formula (List Char) :=
  φs.foldl .and φ

theorem eval_conj (σ : List Char → Bool) (φ : Formula (List Char))
    (φs : List (Formula (List Char))) :
    (conj φ φs).eval σ = (φ :: φs).all (Formula.eval σ) := by
  induction φs generalizing φ with
  | nil => simp [conj]
  | cons ψ φs ih =>
    have hstep : conj φ (ψ :: φs) = conj (φ.and ψ) φs := rfl
    rw [hstep, ih, List.all_cons, List.all_cons, List.all_cons, Formula.eval, Bool.and_assoc]

theorem Factors.chainRest {ts rest : List Token} {φs : List (Formula (List Char))}
    (h : Factors n ts φs) (hrest : rest.head? ≠ some .and) :
    ∀ {k : ℕ} {φ : Formula (List Char)}, (Token.and :: (ts ++ rest)).length ≤ k →
      chainRest .and .and (unary n) k φ (.and :: (ts ++ rest)) = some (conj φ φs, rest) := by
  induction h with
  | single hψ =>
    intro k φ hk
    obtain ⟨k, rfl⟩ : ∃ m, k = m + 1 := ⟨k - 1, by rw [List.length_cons] at hk; omega⟩
    rw [chainRest_op (hψ rest), chainRest_end hrest]
    · rfl
    · rw [List.length_cons, List.length_append] at hk
      omega
  | @cons ts ts' ψ φs hψ _ ih =>
    intro k φ hk
    obtain ⟨k, rfl⟩ : ∃ m, k = m + 1 := ⟨k - 1, by rw [List.length_cons] at hk; omega⟩
    rw [List.append_assoc, List.cons_append, chainRest_op (hψ _), ih]
    · rfl
    · simp only [List.length_cons, List.length_append] at hk ⊢
      omega

/-- **A chain is read as the conjunction of its operands.** -/
theorem Factors.conjunction {ts : List Token} {φs : List (Formula (List Char))}
    (h : Factors n ts φs) : ∃ φ : Formula (List Char),
      (∀ σ, φ.eval σ = φs.all (Formula.eval σ)) ∧
      ∀ rest : List Token, rest.head? ≠ some .and →
        conjunction (unary n) (ts ++ rest) = some (φ, rest) := by
  cases h with
  | @single _ φ hφ =>
    refine ⟨φ, fun σ => by simp, ?_⟩
    intro rest hrest
    rw [Propositional.conjunction, chain, hφ rest, Option.bind_some,
      chainRest_end hrest le_rfl]
  | @cons ts ts' φ φs hφ hs =>
    refine ⟨conj φ φs, fun σ => eval_conj σ φ φs, ?_⟩
    intro rest hrest
    rw [Propositional.conjunction, chain, List.append_assoc, List.cons_append, hφ,
      Option.bind_some, hs.chainRest hrest le_rfl]

/-! ## Parentheses -/

/-- The formula that is read in parentheses, or as a whole, if there is no `||` in it. -/
theorem disjunction_single {ts rest : List Token} {φ : Formula (List Char)}
    (h : ∀ rest : List Token, rest.head? ≠ some .and →
      conjunction (unary n) (ts ++ rest) = some (φ, rest))
    (hand : rest.head? ≠ some .and) (hor : rest.head? ≠ some .or) :
    disjunction (unary n) (ts ++ rest) = some (φ, rest) := by
  rw [disjunction, chain, h rest hand, Option.bind_some, chainRest_end hor le_rfl]

/-- Two operands of `||`. -/
theorem disjunction_or {ts ts' rest : List Token} {φ ψ : Formula (List Char)}
    (h : ∀ rest : List Token, rest.head? ≠ some .and →
      conjunction (unary n) (ts ++ rest) = some (φ, rest))
    (h' : ∀ rest : List Token, rest.head? ≠ some .and →
      conjunction (unary n) (ts' ++ rest) = some (ψ, rest))
    (hand : rest.head? ≠ some .and) (hor : rest.head? ≠ some .or) :
    disjunction (unary n) (ts ++ .or :: (ts' ++ rest)) = some (φ.or ψ, rest) := by
  have hne : (Token.or :: (ts' ++ rest)).head? ≠ some .and := by
    intro heq
    cases heq
  have hlen : rest.length ≤ (ts' ++ rest).length := by
    rw [List.length_append]
    omega
  rw [disjunction, chain, h _ hne, Option.bind_some]
  rw [List.length_cons, chainRest_op (h' rest hand), chainRest_end hor hlen]

theorem reads_paren {ts : List Token} {φ : Formula (List Char)}
    (h : ∀ rest, disjunction (unary n) (ts ++ .rparen :: rest) = some (φ, .rparen :: rest)) :
    Reads (unary (n + 1)) (.lparen :: (ts ++ [.rparen])) φ := by
  intro rest
  rw [List.cons_append, List.append_assoc, List.singleton_append, unary, h rest]
  rfl

/-- A chain in parentheses. -/
theorem Factors.paren {ts : List Token} {φs : List (Formula (List Char))} (h : Factors n ts φs) :
    ∃ φ : Formula (List Char), (∀ σ, φ.eval σ = φs.all (Formula.eval σ)) ∧
      Reads (unary (n + 1)) (.lparen :: (ts ++ [.rparen])) φ := by
  obtain ⟨φ, hφ, hread⟩ := h.conjunction
  refine ⟨φ, hφ, reads_paren ?_⟩
  intro rest
  exact disjunction_single hread nofun nofun

/-- Two chains with `||` between them, in parentheses. -/
theorem Factors.orParen {ts ts' : List Token} {φs ψs : List (Formula (List Char))}
    (h : Factors n ts φs) (h' : Factors n ts' ψs) : ∃ φ : Formula (List Char),
      (∀ σ, φ.eval σ = (φs.all (Formula.eval σ) || ψs.all (Formula.eval σ))) ∧
      Reads (unary (n + 1)) (.lparen :: (ts ++ .or :: (ts' ++ [.rparen]))) φ := by
  obtain ⟨φ, hφ, hread⟩ := h.conjunction
  obtain ⟨ψ, hψ, hread'⟩ := h'.conjunction
  refine ⟨φ.or ψ, ?_, ?_⟩
  · intro σ
    rw [Formula.eval, hφ, hψ]
  · have hparen : Reads (unary (n + 1)) (.lparen :: ((ts ++ .or :: ts') ++ [.rparen])) (φ.or ψ) := by
      apply reads_paren
      intro rest
      rw [List.append_assoc, List.cons_append]
      exact disjunction_or hread hread' nofun nofun
    rwa [List.append_assoc, List.cons_append] at hparen

/-- **A chain is a text's formula**, if it gives the tokens. -/
theorem Factors.read {text : List Char} {ts : List Token} {φs : List (Formula (List Char))}
    (hlex : Lexes text ts) (h : Factors ts.length ts φs) : ∃ φ : Formula (List Char),
      Propositional.read text = some φ ∧ ∀ σ, φ.eval σ = φs.all (Formula.eval σ) := by
  obtain ⟨φ, hφ, hread⟩ := h.conjunction
  refine ⟨φ, ?_, hφ⟩
  have htokens : lex (text ++ []) = some (ts ++ []) := hlex rfl lex_nil
  have hparse : disjunction (unary ts.length) (ts ++ []) = some (φ, []) :=
    disjunction_single hread nofun nofun
  rw [List.append_nil] at htokens hparse
  rw [List.append_nil] at htokens
  rw [Propositional.read, htokens, Option.bind_some, parse, hparse]

end Propositional
