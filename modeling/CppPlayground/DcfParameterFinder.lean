import CppPlayground.TextStream
import Mathlib.Logic.Function.Basic

/-!
# The DCF parameter finder

The scan in `lely_examples/dcf_parameter_finder.cpp` goes through a DCF or EDS file line by
line. It keeps the index and the subindex of the section it believes to be in, and records
them for the name in every `ParameterName=` line. Three tests on the line alone decide what it
believes: a regular expression for `[digits]`, a search for `ParameterName=`, and a search for
`[<index>sub` with the index it has.

* `Attributes` — what the scan is for, over files given by their lines.
* `Header.Recognised` — what a header must look like for the scan to take it for what it is.
* `scanLine_header` — the header of an object's section is read if it is recognised; if not, the
  numbers of an earlier section stay in force, or `std::stoi` throws.
-/

namespace CppPlayground

namespace DcfParameterFinder

open TextStream TextStream.IStream

/-! ## The source -/

/-- The local variables of the scan. -/
structure State where
  currentIndex : ℤ
  currentSubindex : ℤ
  parameterMap : List Char → Option (ℤ × ℤ)

/-- The pair that is recorded for a name. -/
def State.current (st : State) : ℤ × ℤ := (st.currentIndex, st.currentSubindex)

/-- `regex_match(line, matches, pattern)` for the pattern `\[(\d+)\]`, with `matches[1]`. -/
def matchIndex : List Char → Option (List Char)
  | '[' :: cs =>
    if cs.takeWhile Char.isDigit ≠ [] ∧ cs.dropWhile Char.isDigit = [']'] then
      some (cs.takeWhile Char.isDigit)
    else
      none
  | _ => none

/-- `line.substr(line.find(pat) + skip)`, where `npos + skip` wraps around to `skip - 1`. -/
def substrFrom (pat : List Char) (skip : ℕ) (line : List Char) : List Char :=
  match find pat line with
  | some i => line.drop (i + skip)
  | none => line.drop (skip - 1)

/-- The literal in the search for a parameter name. -/
def nameKey : List Char := "ParameterName=".toList

/-- `"[" + to_string(currentIndex) + "sub"`. -/
def subKey (currentIndex : ℤ) : List Char := '[' :: (decimal currentIndex ++ "sub".toList)

/-- The body of `while (getline(dcfFile, line))`. -/
def scanLine (st : State) (line : List Char) : Except StoiError State :=
  match matchIndex line with
  | some digits =>
    (stoi digits).map fun i => { st with currentIndex := i, currentSubindex := 0 }
  | none =>
    if find nameKey line ≠ none then
      let paramName := substrFrom ['='] 1 line
      .ok { st with parameterMap := Function.update st.parameterMap paramName (some st.current) }
    else if find nameKey line = none ∧ find (subKey st.currentIndex) line ≠ none then
      (stoi (substrFrom "sub".toList 3 line)).map fun s => { st with currentSubindex := s }
    else
      .ok st

/-- The variables before the loop. -/
def initial : State := ⟨0, 0, fun _ => none⟩

/-- The scan of a whole file. -/
def scan (text : List Char) : Except StoiError State :=
  (getlines '\n' (ofText text)).foldlM scanLine initial

/-! ## Files -/

/-- The header of a section: of an object, of a sub-object, or of any other section. -/
inductive Header where
  | object (index : List Char)
  | subObject (index subindex : List Char)
  | other (name : List Char)
  deriving DecidableEq, Repr

/-- A line of a file: a header, the name of a parameter, or any other line. -/
inductive Line where
  | header (h : Header)
  | parameterName (name : List Char)
  | other (text : List Char)
  deriving DecidableEq, Repr

def Header.text : Header → List Char
  | object index => '[' :: (index ++ [']'])
  | subObject index subindex => '[' :: (index ++ "sub".toList ++ subindex ++ [']'])
  | other name => '[' :: (name ++ [']'])

def Line.text : Line → List Char
  | header h => h.text
  | parameterName name => nameKey ++ name
  | other text => text

/-- The sections that describe an object of the dictionary. -/
def Header.IsObject : Header → Prop
  | object _ => True
  | subObject _ _ => True
  | other _ => False

instance decidableIsObject : ∀ h : Header, Decidable h.IsObject
  | .object _ => inferInstanceAs (Decidable True)
  | .subObject _ _ => inferInstanceAs (Decidable True)
  | .other _ => inferInstanceAs (Decidable False)

/-- Four hexadecimal digits. -/
def IsIndex (index : List Char) : Prop := index.length = 4 ∧ index.all Char.isHexDigit = true

/-- One or two hexadecimal digits. -/
def IsSubindex (subindex : List Char) : Prop :=
  (subindex.length = 1 ∨ subindex.length = 2) ∧ subindex.all Char.isHexDigit = true

instance decidableIsIndex (index : List Char) : Decidable (IsIndex index) :=
  inferInstanceAs (Decidable (_ ∧ _))

instance decidableIsSubindex (subindex : List Char) : Decidable (IsSubindex subindex) :=
  inferInstanceAs (Decidable (_ ∧ _))

/-- The form of a line on its own. Any other section and any other line may have every text
that is not an object's header, or a parameter name, itself. -/
def Line.WellFormed : Line → Prop
  | header (.object index) => IsIndex index
  | header (.subObject index subindex) => IsIndex index ∧ IsSubindex subindex
  | header (.other name) =>
    '\n' ∉ name ∧ ¬ IsIndex name ∧
      ¬ (IsIndex (name.take 4) ∧ (name.drop 4).take 3 = "sub".toList ∧ IsSubindex (name.drop 7))
  | parameterName name => '\n' ∉ name
  | other text => '\n' ∉ text ∧ text.head? ≠ some '[' ∧ ¬ nameKey <+: text

instance decidableLineWellFormed : ∀ line : Line, Decidable line.WellFormed
  | .header (.object _) => inferInstanceAs (Decidable (IsIndex _))
  | .header (.subObject _ _) => inferInstanceAs (Decidable (_ ∧ _))
  | .header (.other _) => inferInstanceAs (Decidable (_ ∧ _))
  | .parameterName _ => inferInstanceAs (Decidable (¬ _))
  | .other _ => inferInstanceAs (Decidable (_ ∧ _))

/-- The header of the section behind a line, from that of the section it stands in. -/
def nextSection (sect : Option Header) : Line → Option Header
  | .header h => some h
  | _ => sect

/-- Where a line may stand: a sub-object behind its object, a name in the section of an
object. -/
def Line.Placed (past : List Line) : Line → Prop
  | header (.subObject index _) => header (.object index) ∈ past
  | parameterName _ => ∃ h ∈ past.foldl nextSection none, h.IsObject
  | _ => True

instance decidablePlaced (past : List Line) : ∀ line : Line, Decidable (line.Placed past)
  | .header (.object _) => inferInstanceAs (Decidable True)
  | .header (.subObject _ _) => inferInstanceAs (Decidable (_ ∈ past))
  | .header (.other _) => inferInstanceAs (Decidable True)
  | .parameterName _ => inferInstanceAs (Decidable (∃ h ∈ _, _))
  | .other _ => inferInstanceAs (Decidable True)

/-- The files in question: lines of the right form in the right places, and no two sections
of objects with one header. -/
structure WellFormed (file : List Line) : Prop where
  lines : ∀ line ∈ file, line.WellFormed
  placed : ∀ i : Fin file.length, (file.get i).Placed (file.take i)
  distinct : (file.filter fun | .header h => decide h.IsObject | _ => false).Nodup

/-- The text of a file, whose last line is closed by a newline or is not. -/
def text (closed : Bool) (file : List Line) : List Char :=
  writeLines '\n' closed (file.map Line.text)

/-- An empty line is a line by its newline only. -/
def Ends (closed : Bool) (file : List Line) : Prop :=
  closed = true ∨ ∀ line ∈ file.getLast?, line.text ≠ []

instance decidableEnds (closed : Bool) (file : List Line) : Decidable (Ends closed file) :=
  inferInstanceAs (Decidable (_ ∨ _))

/-- The parameter that a line in this section names, if it is the section of an object. -/
def named : Option Header → Line → List (Header × List Char)
  | some h, .parameterName name => if h.IsObject then [(h, name)] else []
  | _, _ => []

/-- The parameters of objects in these lines, each with the header of its section. -/
def parameters : Option Header → List Line → List (Header × List Char)
  | _, [] => []
  | sect, line :: lines => named sect line ++ parameters (nextSection sect line) lines

/-- The parameters whose names occur only once in the file. -/
def uniqueParameters (file : List Line) : List (Header × List Char) :=
  (parameters none file).filter fun p => file.count (.parameterName p.2) = 1

/-- A decimal numeral without leading zeros. -/
def IsNumeral (ds : List Char) : Prop :=
  ds.all Char.isDigit = true ∧ (ds = ['0'] ∨ ds.head? ≠ some '0')

instance decidableIsNumeral (ds : List Char) : Decidable (IsNumeral ds) :=
  inferInstanceAs (Decidable (_ ∧ _))

/-- The value of a decimal numeral. -/
def value (ds : List Char) : ℤ := (Nat.ofDigitChars 10 ds 0 : ℕ)

/-- The pair of a section whose numerals are decimal, without leading zeros. -/
def Header.pair : Header → Option (ℤ × ℤ)
  | object index => if IsNumeral index then some (value index, 0) else none
  | subObject index subindex =>
    if IsNumeral index ∧ IsNumeral subindex then some (value index, value subindex) else none
  | other _ => none

/-- Each parameter is attributed to its own section: the scan ends, parameters of different
sections are recorded with different pairs, and those of a section in decimal with its
numbers. -/
def Attributes (closed : Bool) (file : List Line) : Prop :=
  ∃ st, scan (text closed file) = .ok st ∧
    (∀ p ∈ uniqueParameters file, ∀ q ∈ uniqueParameters file, p.1 ≠ q.1 →
      ∃ i ∈ st.parameterMap p.2, ∃ j ∈ st.parameterMap q.2, i ≠ j) ∧
    ∀ p ∈ uniqueParameters file, ∀ pair ∈ p.1.pair, st.parameterMap p.2 = some pair

/-! ## What the scan reads in a header -/

/-- The number that `std::stoi` finds in a subindex: that of its leading decimal digits. -/
def leadingValue (subindex : List Char) : ℤ := value (subindex.takeWhile Char.isDigit)

/-- The numbers in a header as the scan reads them. -/
def Header.reading : Header → ℤ × ℤ
  | object index => (value index, 0)
  | subObject index subindex => (value index, leadingValue subindex)
  | other _ => (0, 0)

/-- None of the three tests applies to the line. -/
def Ignored (currentIndex : ℤ) (text : List Char) : Prop :=
  matchIndex text = none ∧ find nameKey text = none ∧ find (subKey currentIndex) text = none

/-- **The header of an object's section is taken for what it is.** The index of an object has
decimal digits only. The index of a sub-object is written as the scan writes the index it has,
without leading zeros, and its subindex starts with a decimal digit. -/
def Header.Recognised (currentIndex : ℤ) : Header → Prop
  | object index => index.all Char.isDigit = true
  | subObject index subindex =>
    index = decimal currentIndex ∧ subindex.head?.any Char.isDigit = true
  | other _ => False

instance decidableRecognised (currentIndex : ℤ) :
    ∀ h : Header, Decidable (h.Recognised currentIndex)
  | .object _ => inferInstanceAs (Decidable (_ = true))
  | .subObject _ _ => inferInstanceAs (Decidable (_ ∧ _))
  | .other _ => inferInstanceAs (Decidable False)

theorem ne_of_isHexDigit {c d : Char} (hc : c.isHexDigit = true) (hd : d.isHexDigit = false) :
    c ≠ d := by
  rintro rfl
  rw [hc] at hd
  cases hd

theorem notMem_of_isHexDigit {ds : List Char} {d : Char} (hds : ds.all Char.isHexDigit = true)
    (hd : d.isHexDigit = false) : d ∉ ds :=
  fun hmem => ne_of_isHexDigit (List.all_eq_true.mp hds d hmem) hd rfl

/-- The text of an object's header has none of the characters that are neither hexadecimal
digits nor in its fixed parts. -/
theorem notMem_object {index : List Char} {d : Char} (hindex : IsIndex index)
    (hd : d.isHexDigit = false) (hfixed : d ∉ "[]".toList) : d ∉ (Header.object index).text := by
  have h := notMem_of_isHexDigit hindex.2 hd
  simp only [Header.text, List.mem_cons, List.mem_append, not_or]
  simp_all

theorem notMem_subObject {index subindex : List Char} {d : Char} (hindex : IsIndex index)
    (hsub : IsSubindex subindex) (hd : d.isHexDigit = false) (hfixed : d ∉ "[sub]".toList) :
    d ∉ (Header.subObject index subindex).text := by
  have h := notMem_of_isHexDigit hindex.2 hd
  have h' := notMem_of_isHexDigit hsub.2 hd
  simp only [Header.text, List.mem_cons, List.mem_append, not_or]
  simp_all

/-- An object's header is not taken for a name. -/
theorem find_nameKey_header {h : Header} (hobject : h.IsObject)
    (hwf : (Line.header h).WellFormed) : find nameKey h.text = none := by
  have hkey : 'P' ∈ nameKey := List.mem_cons_self ..
  cases h with
  | object index => exact find_eq_none_of_notMem hkey (notMem_object hwf (by decide) (by decide))
  | subObject index subindex =>
    exact find_eq_none_of_notMem hkey (notMem_subObject hwf.1 hwf.2 (by decide) (by decide))
  | other name => cases hobject

/-! ### Objects -/

theorem IsIndex.ne_nil {index : List Char} (h : IsIndex index) : index ≠ [] := by
  rintro rfl
  cases h.1

theorem matchIndex_object {index : List Char} (hindex : IsIndex index)
    (hdigits : index.all Char.isDigit = true) :
    matchIndex (Header.object index).text = some index := by
  have hall := List.all_eq_true.mp hdigits
  have htake : (index ++ [']']).takeWhile Char.isDigit = index :=
    takeWhile_isDigit_append hall (by simp)
  have hdrop : (index ++ [']']).dropWhile Char.isDigit = [']'] := by
    rw [List.dropWhile_append_of_pos hall]
    rfl
  rw [Header.text, matchIndex, htake, if_pos ⟨hindex.ne_nil, hdrop⟩]

theorem matchIndex_object_eq_none {index : List Char}
    (hdigits : ¬ index.all Char.isDigit = true) :
    matchIndex (Header.object index).text = none := by
  rw [Header.text, matchIndex, if_neg]
  rintro ⟨-, hdrop⟩
  have hsplit := List.takeWhile_append_dropWhile (p := Char.isDigit) (l := index ++ [']'])
  rw [hdrop] at hsplit
  rw [← List.append_cancel_right hsplit, List.all_eq_true] at hdigits
  exact hdigits fun c hc => List.mem_takeWhile_imp hc

theorem scanLine_object (st : State) {index : List Char} (hindex : IsIndex index)
    (hdigits : index.all Char.isDigit = true) :
    scanLine st (Header.object index).text =
      .ok { st with currentIndex := value index, currentSubindex := 0 } := by
  have hend : ∀ c ∈ ([] : List Char).head?, c.isDigit = false := by simp
  have hstoi := stoi_append hindex.ne_nil (List.all_eq_true.mp hdigits) (by rw [hindex.1]; decide) hend
  rw [List.append_nil] at hstoi
  rw [scanLine, matchIndex_object hindex hdigits]
  simp only [hstoi]
  rfl

/-! ### Lines that are no object's header -/

section Tests

variable {st : State} {text : List Char}

theorem scanLine_name (hmatch : matchIndex text = none) (hname : find nameKey text ≠ none) :
    scanLine st text = .ok { st with
      parameterMap :=
        Function.update st.parameterMap (substrFrom ['='] 1 text) (some st.current) } := by
  rw [scanLine, hmatch]
  simp only
  rw [if_pos hname]

theorem scanLine_sub (hmatch : matchIndex text = none) (hname : find nameKey text = none)
    (hkey : find (subKey st.currentIndex) text ≠ none) :
    scanLine st text = (stoi (substrFrom "sub".toList 3 text)).map fun s =>
      { st with currentSubindex := s } := by
  rw [scanLine, hmatch]
  simp only
  rw [if_neg (not_not.mpr hname), if_pos ⟨hname, hkey⟩]

theorem scanLine_ignored (h : Ignored st.currentIndex text) : scanLine st text = .ok st := by
  obtain ⟨hmatch, hname, hkey⟩ := h
  rw [scanLine, hmatch]
  simp only
  rw [if_neg (not_not.mpr hname), if_neg fun hboth => hboth.2 hkey]

end Tests

/-! ### Sub-objects -/

theorem matchIndex_subObject (index subindex : List Char) :
    matchIndex (Header.subObject index subindex).text = none := by
  rw [Header.text, matchIndex, if_neg]
  rintro ⟨-, hdrop⟩
  have hsplit := List.takeWhile_append_dropWhile (p := Char.isDigit)
    (l := index ++ "sub".toList ++ subindex ++ [']'])
  rw [hdrop] at hsplit
  have hmem : 's' ∈ (index ++ "sub".toList ++ subindex ++ [']']).takeWhile Char.isDigit := by
    rw [List.append_cancel_right hsplit]
    simp
  exact absurd (List.mem_takeWhile_imp hmem) (by decide)

/-- The search finds the index of the sub-object, and only that. -/
theorem find_subKey_iff {index subindex : List Char} (hindex : IsIndex index)
    (hsub : IsSubindex subindex) (currentIndex : ℤ) :
    find (subKey currentIndex) (Header.subObject index subindex).text ≠ none ↔
      index = decimal currentIndex := by
  have hs : ∀ c ∈ decimal currentIndex, decide (c ≠ 's') = true := by
    intro c hc
    rcases isDigit_or_eq_of_mem_decimal hc with hdigit | rfl
    · exact decide_eq_true fun h => absurd (h ▸ hdigit) (by decide)
    · decide
  have hs' : ∀ c ∈ index, decide (c ≠ 's') = true := fun c hc =>
    decide_eq_true (ne_of_isHexDigit (List.all_eq_true.mp hindex.2 c hc) (by decide))
  rw [Ne, find_eq_none_iff, not_not]
  constructor
  · rintro ⟨past, rest, h⟩
    -- the only bracket that opens is the first character
    have hpast : past = [] := by
      cases past with
      | nil => rfl
      | cons c past =>
        rw [Header.text, subKey, List.cons_append, List.cons_append] at h
        have hmem : '[' ∈ index ++ "sub".toList ++ subindex ++ [']'] := by
          rw [← (List.cons.inj h).2]
          simp
        have h1 := notMem_of_isHexDigit hindex.2 (show '['.isHexDigit = false by decide)
        have h2 := notMem_of_isHexDigit hsub.2 (show '['.isHexDigit = false by decide)
        simp_all
    subst hpast
    have htext : decimal currentIndex ++ 's' :: ("ub".toList ++ rest) =
        index ++ 's' :: ("ub".toList ++ subindex ++ [']']) := by
      simpa [Header.text, subKey] using h
    have htake := congrArg (List.takeWhile (· ≠ 's')) htext
    rw [List.takeWhile_append_of_pos hs, List.takeWhile_append_of_pos hs',
      List.takeWhile_cons_of_neg (by simp), List.takeWhile_cons_of_neg (by simp)] at htake
    simpa using htake.symm
  · rintro rfl
    exact ⟨[], subindex ++ [']'], by simp [Header.text, subKey]⟩

theorem substrFrom_sub {index : List Char} (hindex : IsIndex index) (subindex : List Char) :
    substrFrom "sub".toList 3 (Header.subObject index subindex).text = subindex ++ [']'] := by
  have htext : (Header.subObject index subindex).text =
      ('[' :: index) ++ 's' :: "ub".toList ++ (subindex ++ [']']) := by
    simp [Header.text]
  have hs : 's' ∉ '[' :: index := by
    have h := notMem_of_isHexDigit hindex.2 (show 's'.isHexDigit = false by decide)
    simp [h]
  have hfind : find "sub".toList (Header.subObject index subindex).text =
      some ('[' :: index).length := by
    rw [htext]
    exact find_append hs
  rw [substrFrom, hfind, htext]
  exact List.drop_left' (by simp)

/-- What `std::stoi` makes of the text behind `sub`. -/
theorem stoi_subindex {subindex : List Char} (hsub : IsSubindex subindex) :
    stoi (subindex ++ [']']) =
      if subindex.head?.any Char.isDigit = true then .ok (leadingValue subindex)
      else .error .invalidArgument := by
  obtain ⟨c, cs, rfl⟩ : ∃ c cs, subindex = c :: cs := by
    refine List.exists_cons_of_ne_nil (List.ne_nil_of_length_pos ?_)
    rcases hsub.1 with h | h <;> omega
  by_cases hdigit : c.isDigit = true
  · -- the leading digits end at the first letter, or at the closing bracket
    have hne : (c :: cs).takeWhile Char.isDigit ≠ [] := by
      rw [List.takeWhile_cons_of_pos hdigit]
      exact List.cons_ne_nil _ _
    have hlen : ((c :: cs).takeWhile Char.isDigit).length ≤ 9 := by
      have hle := (List.takeWhile_prefix Char.isDigit (l := c :: cs)).length_le
      rcases hsub.1 with h | h <;> omega
    have hrest : ∀ d ∈ ((c :: cs).dropWhile Char.isDigit ++ [']']).head?, d.isDigit = false := by
      have hnot := List.head?_dropWhile_not Char.isDigit (c :: cs)
      intro d hd
      cases hcs : (c :: cs).dropWhile Char.isDigit with
      | nil =>
        obtain rfl : ']' = d := by simpa [hcs] using hd
        decide
      | cons e es =>
        obtain rfl : e = d := by simpa [hcs] using hd
        simpa [hcs] using hnot
    have hstoi := stoi_append hne (fun d hd => List.mem_takeWhile_imp hd) hlen hrest
    rw [← List.append_assoc, List.takeWhile_append_dropWhile] at hstoi
    rw [hstoi, if_pos (by simpa using hdigit)]
    rfl
  · rw [Bool.not_eq_true] at hdigit
    have hhex : c.isHexDigit = true := List.all_eq_true.mp hsub.2 c (List.mem_cons_self ..)
    have hspace : isSpace c = false := isSpace_eq_false (by decide) hhex
    have hscan := scanInt_eq_none (cs ++ [']']) hspace (ne_of_isHexDigit hhex (by decide))
      (ne_of_isHexDigit hhex (by decide)) hdigit
    rw [List.cons_append, stoi, hscan, if_neg (by simpa using hdigit)]

theorem value_of_eq_decimal {index : List Char} (hindex : IsIndex index) {i : ℤ}
    (h : index = decimal i) : value index = i := by
  cases i with
  | ofNat n =>
    rw [h, value, decimal, Nat.ofDigitChars_ten_toDigits]
    rfl
  | negSucc n =>
    have hminus : '-' ∈ index := h ▸ List.mem_cons_self ..
    exact absurd (List.all_eq_true.mp hindex.2 _ hminus) (by decide)

theorem scanLine_subObject (st : State) {index subindex : List Char} (hindex : IsIndex index)
    (hsub : IsSubindex subindex) (hcur : index = decimal st.currentIndex) :
    scanLine st (Header.subObject index subindex).text =
      if subindex.head?.any Char.isDigit = true then
        .ok { st with currentSubindex := leadingValue subindex }
      else .error .invalidArgument := by
  have hname : find nameKey (Header.subObject index subindex).text = none :=
    find_nameKey_header trivial ⟨hindex, hsub⟩
  have hkey := (find_subKey_iff hindex hsub st.currentIndex).mpr hcur
  rw [scanLine_sub (matchIndex_subObject index subindex) hname hkey, substrFrom_sub hindex,
    stoi_subindex hsub]
  split <;> rfl

/-! ### Headers -/

/-- **The header of an object's section is read, or passed over, or it throws.** It is read, and
its numbers come into force, if it is recognised. Otherwise the numbers of an earlier
section stay in force for the names below it, or the subindex begins with a letter and
`std::stoi` throws. -/
theorem scanLine_header (st : State) {h : Header} (hobject : h.IsObject)
    (hwf : (Line.header h).WellFormed) :
    (h.Recognised st.currentIndex ∧
        ∃ st', scanLine st h.text = .ok st' ∧ st'.parameterMap = st.parameterMap ∧
          st'.current = h.reading) ∨
      (¬ h.Recognised st.currentIndex ∧
        (scanLine st h.text = .ok st ∨ scanLine st h.text = .error .invalidArgument)) := by
  cases h with
  | other name => cases hobject
  | object index =>
    by_cases hdigits : index.all Char.isDigit = true
    · exact .inl ⟨hdigits, _, scanLine_object st hwf hdigits, rfl, rfl⟩
    · refine .inr ⟨hdigits, .inl (scanLine_ignored ⟨matchIndex_object_eq_none hdigits, ?_, ?_⟩)⟩
      · exact find_nameKey_header trivial hwf
      · have hs : 's' ∈ subKey st.currentIndex := by simp [subKey]
        exact find_eq_none_of_notMem hs (notMem_object hwf (by decide) (by decide))
  | subObject index subindex =>
    obtain ⟨hindex, hsub⟩ := hwf
    by_cases hcur : index = decimal st.currentIndex
    · have hscan := scanLine_subObject st hindex hsub hcur
      by_cases hdigit : subindex.head?.any Char.isDigit = true
      · rw [if_pos hdigit] at hscan
        refine .inl ⟨⟨hcur, hdigit⟩, _, hscan, rfl, ?_⟩
        rw [Header.reading, value_of_eq_decimal hindex hcur]
        rfl
      · rw [if_neg hdigit] at hscan
        exact .inr ⟨fun hrec => hdigit hrec.2, .inr hscan⟩
    · refine .inr ⟨fun hrec => hcur hrec.1,
        .inl (scanLine_ignored ⟨matchIndex_subObject index subindex, ?_, ?_⟩)⟩
      · exact find_nameKey_header trivial ⟨hindex, hsub⟩
      · exact not_not.mp (mt (find_subKey_iff hindex hsub st.currentIndex).mp hcur)

end DcfParameterFinder

end CppPlayground
