import CppPlayground.CsvReader
import Mathlib.Logic.Nontrivial.Defs

/-!
# Numeric columns of the CSV reader

`parse_token<T>` declares its `result` without a value. Extraction of a number writes the target
if the token has something to convert, be it in vain, but not if there is nothing in it but white
space. What is returned then is what the memory of `result` held before.

Columns can be of different numeric types, as in `SensorData`. A row is the same whatever `result`
held exactly if every column has a field of its own with something in it
(`numericRow_determinate_iff`).
-/

namespace CppPlayground

namespace CsvReader

open TextStream TextStream.IStream

universe u v

/-! ## The source -/

section Columns

-- the numeric types, their values, and what a token that is not blank is converted to
variable {ι : Type u} {α : ι → Type v} (convert : (i : ι) → List Char → α i)

/-- `stoken >> result`, for a number: what `result` holds afterwards. -/
def extractInto {i : ι} (before : α i) (token : List Char) : α i :=
  if token.all isSpace then before else convert i token

/-- A row of numeric columns, with what `result` held before in every call. -/
def numericRow (before : ℕ → (i : ι) → α i) (columns : List ι) (line : List Char) :
    List ((i : ι) × α i) :=
  (parseTokens (columns.mapIdx fun n i token => ⟨i, extractInto convert (before n i) token⟩)
    (ofText line)).1

/-- The fields of a line. -/
def fields (line : List Char) : List (List Char) := line.splitOn ','

/-- What `>>` into an `int` makes of a token that is not blank. -/
def convertInt (token : List Char) : ℤ := max intMin (min intMax ((scanInt token).getD 0))

theorem extractInto_convertInt (before : ℤ) (token : List Char) :
    extractInto (fun _ : Unit => convertInt) (i := ()) before token =
      (extractInt token).getD before := by
  rw [extractInto, extractInt]
  split
  · rfl
  · rfl

/-! ## The tokens of a line -/

theorem notMem_of_mem_fields {line f : List Char} (h : f ∈ fields line) : ',' ∉ f := by
  rw [fields] at h
  induction line using lines_induction ',' with
  | nil =>
    rw [List.splitOn_nil] at h
    rw [List.mem_singleton.mp h]
    exact List.not_mem_nil
  | last l hl _ =>
    rw [List.splitOn_eq_singleton hl] at h
    rwa [List.mem_singleton.mp h]
  | line l rest hl ih =>
    rw [List.splitOn_append_cons_self_of_not_mem hl] at h
    rcases List.mem_cons.mp h with rfl | h
    · exact hl
    · exact ih h

theorem atFields_fields (line : List Char) : AtFields ',' (fields line) (ofText line) := by
  obtain ⟨f, fs, hfields⟩ := List.exists_cons_of_ne_nil (List.splitOn_ne_nil ',' line)
  have hline : [','].intercalate (f :: fs) = line := by
    rw [← hfields, List.intercalate_splitOn]
  rw [fields, hfields, AtFields, hline]

/-- Each call takes the next field; past the last one the token is empty. -/
theorem getElem?_parseTokens {β : Type*} {extracts : List (List Char → β)} :
    ∀ {fs : List (List Char)} {ss : IStream}, AtFields ',' fs ss → (∀ f ∈ fs, ',' ∉ f) → ∀ n : ℕ,
      (parseTokens extracts ss).1[n]? =
        extracts[n]?.map fun extract => extract (fs[n]?.getD []) := by
  induction extracts with
  | nil =>
    intro fs ss _ _ n
    rfl
  | cons extract extracts ih =>
    intro fs ss hat hsep n
    cases fs with
    | nil =>
      -- the end of the text has been seen: `getline` leaves the token alone
      have hnext : parseToken extract ',' ss = (extract [], { ss with fail := true }) := by
        rw [parseToken, getline_of_eof hat.2]
      rw [parseTokens, hnext]
      cases n with
      | zero => rfl
      | succ n =>
        have hat' : AtFields ',' [] { ss with fail := true } := hat
        exact ih hat' hsep n
    | cons f fs =>
      obtain ⟨htoken, hnext⟩ := AtFields.getline hat (hsep f (List.mem_cons_self ..)) []
      rw [parseTokens, parseToken]
      cases n with
      | zero => rw [List.getElem?_cons_zero, htoken]; rfl
      | succ n => exact ih hnext (fun g hg => hsep g (List.mem_cons_of_mem _ hg)) n

/-- The value of a column. -/
theorem getElem?_numericRow (before : ℕ → (i : ι) → α i) (columns : List ι) (line : List Char)
    (n : ℕ) : (numericRow convert before columns line)[n]? =
      columns[n]?.map fun i => ⟨i, extractInto convert (before n i) ((fields line)[n]?.getD [])⟩ := by
  rw [numericRow, getElem?_parseTokens (atFields_fields line) fun _ => notMem_of_mem_fields,
    List.getElem?_mapIdx, Option.map_map]
  rfl

/-! ## What the values depend on -/

/-- The column with the given number has a field, and the field is not blank. -/
def HasField (line : List Char) (n : ℕ) : Prop :=
  ∃ f, (fields line)[n]? = some f ∧ f.all isSpace = false

theorem hasField_iff {line : List Char} {n : ℕ} :
    HasField line n ↔ ((fields line)[n]?.getD []).all isSpace = false := by
  rw [HasField]
  cases (fields line)[n]? with
  | none => simp
  | some f => simp

/-- **A row depends only on its line** exactly if every column has a field that is not blank. -/
theorem numericRow_determinate_iff [∀ i, Nontrivial (α i)] (columns : List ι) (line : List Char) :
    (∀ before before' : ℕ → (i : ι) → α i,
        numericRow convert before columns line = numericRow convert before' columns line) ↔
      ∀ n < columns.length, HasField line n := by
  constructor
  · intro hsame n hn
    rw [hasField_iff]
    by_contra hblank
    rw [Bool.not_eq_false] at hblank
    -- two different values that `result` could have held
    choose a b hab using fun i : ι => exists_pair_ne (α i)
    have hvalue := congrArg (fun values => values[n]?) (hsame (fun _ => a) fun _ => b)
    simp only [getElem?_numericRow, List.getElem?_eq_getElem hn, Option.map_some,
      extractInto, if_pos hblank, Option.some_inj] at hvalue
    exact hab _ (eq_of_heq (Sigma.mk.inj hvalue).2)
  · intro hfields before before'
    apply List.ext_getElem?
    intro n
    rw [getElem?_numericRow, getElem?_numericRow]
    rcases Nat.lt_or_ge n columns.length with hn | hn
    · have hblank : ¬ ((fields line)[n]?.getD []).all isSpace = true := by
        rw [Bool.not_eq_true]
        exact hasField_iff.mp (hfields n hn)
      simp only [extractInto, if_neg hblank]
    · rw [List.getElem?_eq_none hn]
      rfl

end Columns

/-- Two `int` columns, the second one malformed and behind blanks. -/
theorem numericRow_determinate_malformed :
    (∀ n < 2, HasField "7, x".toList n) ∧
      ∀ before before' : ℕ → (i : Unit) → ℤ,
        numericRow (fun _ : Unit => convertInt) before [(), ()] "7, x".toList =
          numericRow (fun _ : Unit => convertInt) before' [(), ()] "7, x".toList := by
  have hblank : ∀ n < 2, ((fields "7, x".toList)[n]?.getD []).all isSpace = false := by decide
  have hfields : ∀ n < 2, HasField "7, x".toList n := fun n hn => hasField_iff.mpr (hblank n hn)
  exact ⟨hfields, (numericRow_determinate_iff _ [(), ()] _).mpr hfields⟩

/-- An empty last field: its value is what `result` held. -/
theorem numericRow_indeterminate :
    ¬ ∀ before before' : ℕ → (i : Unit) → ℤ,
      numericRow (fun _ : Unit => convertInt) before [(), ()] "1,".toList =
        numericRow (fun _ : Unit => convertInt) before' [(), ()] "1,".toList := by
  intro h
  have hvalue := h (fun _ _ => 0) fun _ _ => 5
  exact absurd hvalue (by decide)

end CsvReader

end CppPlayground
