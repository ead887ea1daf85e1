import CppPlayground.DcfParameterFinder
import CppPlayground.ForLoop
import CppPlayground.Machine

/-!
# Which section a parameter is attributed to

The scan takes a line for what it looks like. `Records`, `KeepsNumbers` and `Throws` say what it
makes of a line by the text of the line and the index in force, which is the number in the last
line of the form `[digits]` (`nextIndex`). What a line does to the variables is said once
(`scanLine_cases`).

A name is recorded with the numbers of its own section if the header of the section is
recognised and no line from there on changes the numbers, up to the last line that records the
name (`UnderOwnHeader`, `parameterMap_eq_reading`). All other headers and lines may be whatever
they are. If it is so for the names that occur once, parameters of different sections have
different pairs exactly if their headers do not carry the same numbers (`attributes_iff`).

Where the header of an object is passed over, its parameters get the numbers of the section
before (`not_attributes_of_passedOver`).
-/

namespace CppPlayground

namespace DcfParameterFinder

open TextStream TextStream.IStream

/-! ## What the scan makes of a line -/

/-- The index in force behind a line. A line `[digits]` sets it, whatever section it heads. -/
def nextIndex (currentIndex : ℤ) (line : Line) : ℤ :=
  match matchIndex line.text with
  | some digits => value digits
  | none => currentIndex

/-- The index in force behind these lines. -/
def indexAfter (past : List Line) : ℤ := past.foldl nextIndex initial.currentIndex

/-- The line is taken for this name of a parameter. -/
def Records (name : List Char) (line : Line) : Prop :=
  matchIndex line.text = none ∧ find nameKey line.text ≠ none ∧
    substrFrom ['='] 1 line.text = name

/-- The line is not taken for a header. -/
def KeepsNumbers (currentIndex : ℤ) (line : Line) : Prop :=
  matchIndex line.text = none ∧
    (find nameKey line.text ≠ none ∨ find (subKey currentIndex) line.text = none)

/-- The line is taken for a header, and `std::stoi` throws: the number is too large for an `int`,
or there is none behind `sub`. -/
def Throws (currentIndex : ℤ) (line : Line) : Prop :=
  match matchIndex line.text with
  | some digits => intMax < value digits
  | none => find nameKey line.text = none ∧ find (subKey currentIndex) line.text ≠ none ∧
      (stoi (substrFrom "sub".toList 3 line.text)).isOk = false

instance decidableRecords (name : List Char) (line : Line) : Decidable (Records name line) :=
  inferInstanceAs (Decidable (_ ∧ _))

instance decidableKeepsNumbers (currentIndex : ℤ) (line : Line) :
    Decidable (KeepsNumbers currentIndex line) :=
  inferInstanceAs (Decidable (_ ∧ _))

instance decidableThrows (currentIndex : ℤ) (line : Line) : Decidable (Throws currentIndex line) :=
  match h : matchIndex line.text with
  | some digits => decidable_of_iff (intMax < value digits) (by rw [Throws, h])
  | none => decidable_of_iff (find nameKey line.text = none ∧
      find (subKey currentIndex) line.text ≠ none ∧
      (stoi (substrFrom "sub".toList 3 line.text)).isOk = false) (by rw [Throws, h])

/-- From `st` to `st'` by a line. -/
structure Takes (st : State) (line : Line) (st' : State) : Prop where
  index : st'.currentIndex = nextIndex st.currentIndex line
  numbers : KeepsNumbers st.currentIndex line → st'.current = st.current
  recorded : ∀ name, Records name line → st'.parameterMap name = some st.current
  others : ∀ name, ¬ Records name line → st'.parameterMap name = st.parameterMap name

theorem matchIndex_eq_some {text ds : List Char} (h : matchIndex text = some ds) :
    ds ≠ [] ∧ ∀ c ∈ ds, c.isDigit = true := by
  unfold matchIndex at h
  split at h
  · split at h
    · next hmatch =>
      cases h
      exact ⟨hmatch.1, fun c hc => List.mem_takeWhile_imp hc⟩
    · cases h
  · cases h

/-- A line of the form `[digits]`. -/
theorem scanLine_index (st : State) {line : Line} {ds : List Char}
    (hmatch : matchIndex line.text = some ds) :
    scanLine st line.text = if value ds ≤ intMax then
      .ok { st with currentIndex := value ds, currentSubindex := 0 } else .error .outOfRange := by
  obtain ⟨hne, hds⟩ := matchIndex_eq_some hmatch
  have hend : ∀ c ∈ ([] : List Char).head?, c.isDigit = false := nofun
  have hstoi := stoi_digits hne hds hend
  rw [List.append_nil] at hstoi
  rw [scanLine, hmatch]
  by_cases hmax : value ds ≤ intMax
  · rw [if_pos hmax]
    simp only [hstoi, if_pos (show ((Nat.ofDigitChars 10 ds 0 : ℕ) : ℤ) ≤ intMax from hmax)]
    rfl
  · rw [if_neg hmax]
    simp only [hstoi, if_neg (show ¬ ((Nat.ofDigitChars 10 ds 0 : ℕ) : ℤ) ≤ intMax from hmax)]
    rfl

/-- **What a line does**: `std::stoi` throws, or the line is taken for what it looks like. -/
theorem scanLine_cases (st : State) (line : Line) :
    (Throws st.currentIndex line ∧ ∃ err, scanLine st line.text = .error err) ∨
      (¬ Throws st.currentIndex line ∧
        ∃ st', scanLine st line.text = .ok st' ∧ Takes st line st') := by
  cases hmatch : matchIndex line.text with
  | some ds =>
    have hscan := scanLine_index st hmatch
    have hthrows : Throws st.currentIndex line ↔ intMax < value ds := by rw [Throws, hmatch]
    by_cases hmax : value ds ≤ intMax
    · rw [if_pos hmax] at hscan
      refine .inr ⟨fun h => absurd (hthrows.mp h) (by omega), _, hscan, ?_, ?_, ?_, ?_⟩
      · rw [nextIndex, hmatch]
      · intro hkeep
        rw [hkeep.1] at hmatch
        cases hmatch
      · intro name hrec
        rw [hrec.1] at hmatch
        cases hmatch
      · intro name _
        rfl
    · rw [if_neg hmax] at hscan
      exact .inl ⟨hthrows.mpr (by omega), _, hscan⟩
  | none =>
    have hnext : nextIndex st.currentIndex line = st.currentIndex := by rw [nextIndex, hmatch]
    have hthrows : Throws st.currentIndex line ↔ find nameKey line.text = none ∧
        find (subKey st.currentIndex) line.text ≠ none ∧
        (stoi (substrFrom "sub".toList 3 line.text)).isOk = false := by rw [Throws, hmatch]
    by_cases hname : find nameKey line.text = none
    · by_cases hsub : find (subKey st.currentIndex) line.text = none
      · -- none of the tests applies
        refine .inr ⟨fun h => (hthrows.mp h).2.1 hsub, st, scanLine_ignored ⟨hmatch, hname, hsub⟩,
          hnext.symm, fun _ => rfl, ?_, fun _ _ => rfl⟩
        exact fun name hrec => absurd hname hrec.2.1
      · have hscan := scanLine_sub hmatch hname hsub
        cases hstoi : stoi (substrFrom "sub".toList 3 line.text) with
        | error err =>
          rw [hstoi] at hscan
          exact .inl ⟨hthrows.mpr ⟨hname, hsub, by rw [hstoi]; rfl⟩, err, hscan⟩
        | ok s =>
          rw [hstoi] at hscan
          refine .inr ⟨fun h => ?_, _, hscan, hnext.symm, ?_, ?_, fun _ _ => rfl⟩
          · have hok := (hthrows.mp h).2.2
            rw [hstoi] at hok
            cases hok
          · exact fun hkeep => absurd hsub (not_not.mpr (hkeep.2.resolve_left (not_not.mpr hname)))
          · exact fun name hrec => absurd hname hrec.2.1
    · refine .inr ⟨fun h => hname (hthrows.mp h).1, _, scanLine_name hmatch hname, hnext.symm,
        fun _ => rfl, ?_, ?_⟩
      · rintro name ⟨-, -, rfl⟩
        exact Function.update_self ..
      · intro name hrec
        have hne : name ≠ substrFrom ['='] 1 line.text := fun heq => hrec ⟨hmatch, hname, heq.symm⟩
        exact Function.update_of_ne hne _ _

theorem takes_of_scanLine {st st' : State} {line : Line} (h : scanLine st line.text = .ok st') :
    Takes st line st' := by
  rcases scanLine_cases st line with ⟨-, err, hscan⟩ | ⟨-, st₁, hscan, htakes⟩
  · rw [h] at hscan
    cases hscan
  · obtain rfl := Except.ok.inj (h.symm.trans hscan)
    exact htakes

/-! ## Lines one after the other -/

/-- The scan of these lines. -/
def scanLines (st : State) (lines : List Line) : Except StoiError State :=
  lines.foldlM (fun st line => scanLine st line.text) st

/-- No line throws with the index in force before it. -/
def NeverThrows (currentIndex : ℤ) (lines : List Line) : Prop :=
  Machine.Along (fun i line => some (nextIndex i line)) (fun i line => ¬ Throws i line)
    currentIndex lines

instance decidableNeverThrows (i : ℤ) (lines : List Line) : Decidable (NeverThrows i lines) :=
  inferInstanceAs (Decidable (Machine.Along _ _ _ _))

theorem scanLines_append {st st' : State} {past lines : List Line}
    (h : scanLines st (past ++ lines) = .ok st') :
    ∃ st₁, scanLines st past = .ok st₁ ∧ scanLines st₁ lines = .ok st' := by
  rw [scanLines, List.foldlM_append] at h
  exact ForLoop.bind_eq_ok h

theorem scanLines_cons {st st' : State} {line : Line} {lines : List Line}
    (h : scanLines st (line :: lines) = .ok st') :
    ∃ st₁, scanLine st line.text = .ok st₁ ∧ scanLines st₁ lines = .ok st' := by
  rw [scanLines, List.foldlM_cons] at h
  exact ForLoop.bind_eq_ok h

/-- **When the scan ends.** -/
theorem scanLines_isOk_iff {lines : List Line} :
    ∀ {st : State}, (∃ st', scanLines st lines = .ok st') ↔ NeverThrows st.currentIndex lines := by
  induction lines with
  | nil =>
    intro st
    exact ⟨fun _ => trivial, fun _ => ⟨st, rfl⟩⟩
  | cons line lines ih =>
    intro st
    constructor
    · rintro ⟨st', h⟩
      obtain ⟨st₁, hfirst, hrest⟩ := scanLines_cons h
      have hindex := (takes_of_scanLine hfirst).index
      refine ⟨fun hthrows => ?_, fun i hi => ?_⟩
      · rcases scanLine_cases st line with ⟨-, err, herr⟩ | ⟨hno, -⟩
        · rw [hfirst] at herr
          cases herr
        · exact hno hthrows
      · cases hi
        rw [← hindex]
        exact ih.mp ⟨st', hrest⟩
    · rintro ⟨hfirst, hrest⟩
      rcases scanLine_cases st line with ⟨hthrows, -⟩ | ⟨-, st₁, hscan, htakes⟩
      · exact absurd hthrows hfirst
      · have hrest := hrest _ rfl
        rw [← htakes.index] at hrest
        obtain ⟨st', hst'⟩ := ih.mpr hrest
        refine ⟨st', ?_⟩
        rw [scanLines, List.foldlM_cons, hscan]
        exact hst'

theorem scanLines_index {lines : List Line} :
    ∀ {st st' : State}, scanLines st lines = .ok st' →
      st'.currentIndex = lines.foldl nextIndex st.currentIndex := by
  induction lines with
  | nil =>
    intro st st' h
    cases h
    rfl
  | cons line lines ih =>
    intro st st' h
    obtain ⟨st₁, hfirst, hrest⟩ := scanLines_cons h
    rw [ih hrest, (takes_of_scanLine hfirst).index, List.foldl_cons]

/-- Lines that are not taken for headers leave the numbers in force. -/
theorem scanLines_current {st st' : State} {lines : List Line}
    (hkeep : ∀ line ∈ lines, KeepsNumbers st.currentIndex line)
    (h : scanLines st lines = .ok st') : st'.current = st.current := by
  refine ForLoop.foldlM_invariant (I := fun st' => st'.current = st.current) ?_ rfl h
  intro st₁ st₂ line hline hcur hscan
  have hindex : st₁.currentIndex = st.currentIndex := congrArg Prod.fst hcur
  exact ((takes_of_scanLine hscan).numbers (hindex ▸ hkeep line hline)).trans hcur

/-- Lines that do not record the name leave its entry alone. -/
theorem scanLines_parameterMap {st st' : State} {lines : List Line} {name : List Char}
    (hrec : ∀ line ∈ lines, ¬ Records name line) (h : scanLines st lines = .ok st') :
    st'.parameterMap name = st.parameterMap name := by
  refine ForLoop.foldlM_invariant
    (I := fun st' => st'.parameterMap name = st.parameterMap name) ?_ rfl h
  intro st₁ st₂ line hline hmap hscan
  exact ((takes_of_scanLine hscan).others name (hrec line hline)).trans hmap

/-- The last line that records a name decides. -/
theorem parameterMap_of_last {st st' : State} {line : Line} {rest : List Line} {name : List Char}
    (hline : Records name line) (hrest : ∀ l ∈ rest, ¬ Records name l)
    (h : scanLines st (line :: rest) = .ok st') : st'.parameterMap name = some st.current := by
  obtain ⟨st₁, hfirst, hlater⟩ := scanLines_cons h
  rw [scanLines_parameterMap hrest hlater]
  exact (takes_of_scanLine hfirst).recorded name hline

/-! ## Parameters under their own headers -/

/-- **The name is recorded under the header of its own section**: that header is recognised, and
no line from there to the last one that records the name is taken for a header. -/
def UnderOwnHeader (file : List Line) (p : Header × List Char) : Prop :=
  ∃ past mid line rest, file = past ++ .header p.1 :: (mid ++ line :: rest) ∧
    p.1.Recognised (indexAfter past) ∧
    (∀ l ∈ mid, KeepsNumbers p.1.reading.1 l) ∧
    Records p.2 line ∧ ∀ l ∈ rest, ¬ Records p.2 l

/-- **A name under the header of its own section is recorded with its numbers.** -/
theorem parameterMap_eq_reading {file : List Line} {st : State} {p : Header × List Char}
    (hobject : p.1.IsObject) (hwf : (Line.header p.1).WellFormed) (hown : UnderOwnHeader file p)
    (h : scanLines initial file = .ok st) : st.parameterMap p.2 = some p.1.reading := by
  obtain ⟨past, mid, line, rest, rfl, hrec, hmid, hline, hrest⟩ := hown
  obtain ⟨st₁, hpast, hlines⟩ := scanLines_append h
  obtain ⟨st₂, hheader, hlines⟩ := scanLines_cons hlines
  obtain ⟨st₃, hbetween, hlast⟩ := scanLines_append hlines
  have hindex : st₁.currentIndex = indexAfter past := scanLines_index hpast
  have hcur : st₂.current = p.1.reading := by
    rcases scanLine_header st₁ hobject hwf with ⟨-, st', hscan, -, hcur⟩ | ⟨hno, -⟩
    · obtain rfl := Except.ok.inj (hheader.symm.trans hscan)
      exact hcur
    · rw [hindex] at hno
      exact absurd hrec hno
  have hkeep : ∀ l ∈ mid, KeepsNumbers st₂.currentIndex l := by
    have hfirst : st₂.currentIndex = p.1.reading.1 := congrArg Prod.fst hcur
    rwa [hfirst]
  rw [parameterMap_of_last hline hrest hlast, scanLines_current hkeep hbetween, hcur]

theorem mem_named {p : Header × List Char} {sect : Option Header} {line : Line}
    (h : p ∈ named sect line) :
    line = .parameterName p.2 ∧ sect = some p.1 ∧ p.1.IsObject := by
  cases line with
  | header h' => cases sect <;> cases h
  | other text => cases sect <;> cases h
  | parameterName name =>
    cases sect with
    | none => cases h
    | some h' =>
      rw [named] at h
      split at h
      · next hobject =>
        obtain rfl := List.mem_singleton.mp h
        exact ⟨rfl, rfl, hobject⟩
      · cases h

theorem mem_parameters {p : Header × List Char} {lines : List Line} :
    ∀ {sect : Option Header}, p ∈ parameters sect lines →
      .parameterName p.2 ∈ lines ∧ p.1.IsObject ∧ (sect = some p.1 ∨ .header p.1 ∈ lines) := by
  induction lines with
  | nil =>
    intro sect h
    cases h
  | cons line lines ih =>
    intro sect h
    rcases List.mem_append.mp h with h | h
    · obtain ⟨rfl, hsect, hobject⟩ := mem_named h
      exact ⟨List.mem_cons_self .., hobject, .inl hsect⟩
    · obtain ⟨hname, hobject, hsect⟩ := ih h
      refine ⟨List.mem_cons_of_mem _ hname, hobject, ?_⟩
      rcases hsect with hsect | hsect
      · cases line with
        | header h' =>
          cases hsect
          exact .inr (List.mem_cons_self ..)
        | parameterName name => exact .inl hsect
        | other text => exact .inl hsect
      · exact .inr (List.mem_cons_of_mem _ hsect)

/-! ## Attribution -/

theorem notMem_newline {line : Line} (hwf : line.WellFormed) : '\n' ∉ line.text := by
  cases line with
  | parameterName name =>
    have hname : '\n' ∉ name := hwf
    have hkey : '\n' ∉ nameKey := by decide
    simp [Line.text, hname, hkey]
  | other text => exact hwf.1
  | header h =>
    cases h with
    | object index => exact notMem_object hwf (by decide) (by decide)
    | subObject index subindex => exact notMem_subObject hwf.1 hwf.2 (by decide) (by decide)
    | other name =>
      have hname : '\n' ∉ name := hwf.1
      simp [Line.text, Header.text, hname]

/-- What `getline` delivers are the lines of the file. -/
theorem scan_text {closed : Bool} {file : List Line} (hwf : WellFormed file)
    (hends : Ends closed file) : scan (text closed file) = scanLines initial file := by
  have hlines : ∀ l ∈ file.map Line.text, '\n' ∉ l := by
    intro l hl
    obtain ⟨line, hline, rfl⟩ := List.mem_map.mp hl
    exact notMem_newline (hwf.lines line hline)
  have hlast : closed = true ∨ ∀ l ∈ (file.map Line.text).getLast?, l ≠ [] := by
    refine hends.imp_right fun hlast l hl => ?_
    rw [List.getLast?_map] at hl
    obtain ⟨line, hline, rfl⟩ := Option.mem_map.mp hl
    exact hlast line hline
  rw [scan, text, getlines_writeLines hlines hlast, scanLines, List.foldlM_map]

/-- The index in a header. -/
def Header.index : Header → List Char
  | object index => index
  | subObject index _ => index
  | other _ => []

/-- No two of the parameters stand in different sections of one object that carry the same
number: two sub-objects whose subindices start with the same number, or an object and a
sub-object whose subindex is zero. -/
def Untwinned (file : List Line) : Prop :=
  ∀ p ∈ uniqueParameters file, ∀ q ∈ uniqueParameters file, p.1 ≠ q.1 →
    p.1.index = q.1.index → p.1.reading.2 ≠ q.1.reading.2

instance decidableUntwinned (file : List Line) : Decidable (Untwinned file) :=
  inferInstanceAs (Decidable (∀ p ∈ _, ∀ q ∈ _, _))

/-- In a recognised header the index is decimal. -/
theorem isDigit_index {h : Header} {i : ℤ} (hobject : h.IsObject)
    (hwf : (Line.header h).WellFormed) (hrec : h.Recognised i) :
    h.index.length = 4 ∧ ∀ c ∈ h.index, c.isDigit = true := by
  cases h with
  | other name => cases hobject
  | object index => exact ⟨hwf.1, List.all_eq_true.mp hrec⟩
  | subObject index subindex =>
    refine ⟨hwf.1.1, fun c hc => ?_⟩
    have hmem : c ∈ decimal i := hrec.1 ▸ hc
    refine (isDigit_or_eq_of_mem_decimal hmem).resolve_right ?_
    exact ne_of_isHexDigit (List.all_eq_true.mp hwf.1.2 c hc) (by decide)

/-- Recognised headers have the same numbers only if they have the same index. -/
theorem reading_eq_iff {h h' : Header} {i i' : ℤ} (hobject : h.IsObject) (hobject' : h'.IsObject)
    (hwf : (Line.header h).WellFormed) (hwf' : (Line.header h').WellFormed)
    (hrec : h.Recognised i) (hrec' : h'.Recognised i') :
    h.reading = h'.reading ↔ h.index = h'.index ∧ h.reading.2 = h'.reading.2 := by
  have hvalue : ∀ {h : Header}, h.IsObject → h.reading.1 = value h.index := by
    intro h hobject
    cases h with
    | object index => rfl
    | subObject index subindex => rfl
    | other name => cases hobject
  obtain ⟨hlen, hdigits⟩ := isDigit_index hobject hwf hrec
  obtain ⟨hlen', hdigits'⟩ := isDigit_index hobject' hwf' hrec'
  rw [Prod.ext_iff, hvalue hobject, hvalue hobject']
  refine and_congr_left fun _ => ⟨fun heq => ?_, fun heq => by rw [heq]⟩
  exact (ofDigitChars_inj hdigits hdigits' (hlen.trans hlen'.symm) (Int.ofNat_inj.mp heq)).2

/-- In decimal, the numbers read are those of the header. -/
theorem reading_of_pair {h : Header} {pair : ℤ × ℤ} (hpair : h.pair = some pair) :
    h.reading = pair := by
  cases h with
  | other name => cases hpair
  | object index =>
    rw [Header.pair] at hpair
    split at hpair
    · exact Option.some.inj hpair
    · cases hpair
  | subObject index subindex =>
    rw [Header.pair] at hpair
    split at hpair
    · next hnum =>
      rw [Header.reading, leadingValue, List.takeWhile_eq_self_iff.mpr (List.all_eq_true.mp hnum.2.1)]
      exact Option.some.inj hpair
    · cases hpair

theorem header_of_unique {file : List Line} (hwf : WellFormed file) {p : Header × List Char}
    (hp : p ∈ uniqueParameters file) : p.1.IsObject ∧ (Line.header p.1).WellFormed := by
  obtain ⟨-, hobject, hsect⟩ := mem_parameters (List.mem_filter.mp hp).1
  have hmem : .header p.1 ∈ file := hsect.resolve_left (by simp)
  exact ⟨hobject, hwf.lines _ hmem⟩

/-- **Attribution.** In a file whose once-occurring names are recorded under their own headers,
each parameter is attributed to its own section if and only if no line throws and no two
sections of one object carry the same number. -/
theorem attributes_iff {closed : Bool} {file : List Line} (hwf : WellFormed file)
    (hends : Ends closed file) (hown : ∀ p ∈ uniqueParameters file, UnderOwnHeader file p) :
    Attributes closed file ↔ NeverThrows initial.currentIndex file ∧ Untwinned file := by
  have hreading : ∀ p ∈ uniqueParameters file, ∀ q ∈ uniqueParameters file,
      (p.1.reading = q.1.reading ↔ p.1.index = q.1.index ∧ p.1.reading.2 = q.1.reading.2) := by
    intro p hp q hq
    obtain ⟨hobject, hwf₁⟩ := header_of_unique hwf hp
    obtain ⟨hobject', hwf₂⟩ := header_of_unique hwf hq
    obtain ⟨_, _, _, _, -, hrec, -⟩ := hown p hp
    obtain ⟨_, _, _, _, -, hrec', -⟩ := hown q hq
    exact reading_eq_iff hobject hobject' hwf₁ hwf₂ hrec hrec'
  have hmap : ∀ {st}, scanLines initial file = .ok st → ∀ p ∈ uniqueParameters file,
      st.parameterMap p.2 = some p.1.reading := by
    intro st hscan p hp
    obtain ⟨hobject, hwfp⟩ := header_of_unique hwf hp
    exact parameterMap_eq_reading hobject hwfp (hown p hp) hscan
  rw [Attributes, scan_text hwf hends]
  constructor
  · rintro ⟨st, hscan, hdiff, -⟩
    refine ⟨scanLines_isOk_iff.mp ⟨st, hscan⟩, ?_⟩
    intro p hp q hq hne hindex hsub
    obtain ⟨i, hi, j, hj, hij⟩ := hdiff p hp q hq hne
    rw [hmap hscan p hp] at hi
    rw [hmap hscan q hq] at hj
    cases hi
    cases hj
    exact hij ((hreading p hp q hq).mpr ⟨hindex, hsub⟩)
  · rintro ⟨hthrows, htwin⟩
    obtain ⟨st, hscan⟩ := scanLines_isOk_iff.mpr hthrows
    refine ⟨st, hscan, fun p hp q hq hne => ?_, fun p hp pair hpair => ?_⟩
    · refine ⟨_, hmap hscan p hp, _, hmap hscan q hq, fun heq => ?_⟩
      obtain ⟨hindex, hsub⟩ := (hreading p hp q hq).mp heq
      exact htwin p hp q hq hne hindex hsub
    · rw [hmap hscan p hp, reading_of_pair hpair]

/-- A file with objects in decimal and others that have no name, and a header that is no object's
although it looks like one. The last line is not closed. -/
def decimalObjects : List Line :=
  [.header (.object "1800".toList), .other "SubNumber=7".toList,
    .parameterName "TPDO communication parameter".toList,
    .header (.subObject "1800".toList "6".toList), .parameterName "SYNC start value".toList,
    .other "DataType=0x0005".toList,
    .header (.object "1A00".toList), .other "ObjectType=0x08".toList,
    .header (.other "12345".toList), .other "foo=bar".toList,
    .header (.object "4000".toList), .parameterName "UNSIGNED32 received by slave".toList]

theorem attributes_decimalObjects :
    WellFormed decimalObjects ∧ Ends false decimalObjects ∧
      (∀ p ∈ uniqueParameters decimalObjects, UnderOwnHeader decimalObjects p) ∧
      Attributes false decimalObjects := by
  have hwf : WellFormed decimalObjects := ⟨by decide, by decide, by decide⟩
  have hends : Ends false decimalObjects := by decide
  have hown : ∀ p ∈ uniqueParameters decimalObjects, UnderOwnHeader decimalObjects p := by
    have hunique : uniqueParameters decimalObjects =
        [(.object "1800".toList, "TPDO communication parameter".toList),
          (.subObject "1800".toList "6".toList, "SYNC start value".toList),
          (.object "4000".toList, "UNSIGNED32 received by slave".toList)] := by decide
    rw [hunique]
    simp only [List.forall_mem_cons, List.not_mem_nil, false_imp_iff, implies_true, and_true]
    refine ⟨⟨[], decimalObjects.take 2 |>.drop 1, _, decimalObjects.drop 3, rfl, ?_⟩,
      ⟨decimalObjects.take 3, [], _, decimalObjects.drop 5, rfl, ?_⟩,
      ⟨decimalObjects.take 10, [], _, [], rfl, ?_⟩⟩
    · decide
    · decide
    · decide
  exact ⟨hwf, hends, hown, (attributes_iff hwf hends hown).mpr (by decide)⟩

/-! ## Headers that are passed over -/

/-- **A section whose header is passed over takes the numbers of another.** If nothing between the
lines that record two names is taken for a header, both are recorded with the same pair,
whatever sections they stand in. -/
theorem not_attributes_of_passedOver {closed : Bool} {file past mid rest : List Line}
    {line line' : Line} {p q : Header × List Char}
    (hfile : file = past ++ line :: (mid ++ line' :: rest)) (hwf : WellFormed file)
    (hends : Ends closed file) (hp : p ∈ uniqueParameters file) (hq : q ∈ uniqueParameters file)
    (hne : p.1 ≠ q.1) (hline : Records p.2 line) (hline' : Records q.2 line')
    (hmid : ∀ l ∈ mid, KeepsNumbers (indexAfter past) l)
    (hp' : ∀ l ∈ mid ++ line' :: rest, ¬ Records p.2 l) (hq' : ∀ l ∈ rest, ¬ Records q.2 l) :
    ¬ Attributes closed file := by
  rintro ⟨st, hscan, hdiff, -⟩
  rw [scan_text hwf hends, hfile] at hscan
  obtain ⟨st₁, hpast, hlines⟩ := scanLines_append hscan
  obtain ⟨st₂, hfirst, hlines'⟩ := scanLines_cons hlines
  obtain ⟨st₃, hbetween, hlast⟩ := scanLines_append hlines'
  have hindex : st₁.currentIndex = indexAfter past := scanLines_index hpast
  have hcur : st₂.current = st₁.current :=
    (takes_of_scanLine hfirst).numbers ⟨hline.1, .inl hline.2.1⟩
  have hkeep : ∀ l ∈ mid, KeepsNumbers st₂.currentIndex l := by
    have hindex' : st₂.currentIndex = indexAfter past := (congrArg Prod.fst hcur).trans hindex
    rwa [hindex']
  obtain ⟨i, hi, j, hj, hij⟩ := hdiff p hp q hq hne
  rw [parameterMap_of_last hline hp' hlines] at hi
  rw [parameterMap_of_last hline' hq' hlast, scanLines_current hkeep hbetween, hcur] at hj
  exact hij (Option.some.inj (hi.symm.trans hj))

/-- Another part of `cpp-slave.eds`, with an index that has a letter in it. -/
def mappingObjects : List Line :=
  [.header (.object "1800".toList), .parameterName "TPDO communication parameter".toList,
    .header (.subObject "1800".toList "6".toList), .parameterName "SYNC start value".toList,
    .other "DataType=0x0005".toList,
    .header (.object "1A00".toList), .parameterName "TPDO mapping parameter".toList,
    .other "ObjectType=0x08".toList]

/-- The object `1A00` is recorded as the sub-object 6 of `1800`, like that sub-object. -/
theorem mappingObjects_misattributed :
    WellFormed mappingObjects ∧ ¬ Attributes true mappingObjects ∧
      ∃ st, scan (text true mappingObjects) = .ok st ∧
        st.parameterMap "SYNC start value".toList = some (1800, 6) ∧
        st.parameterMap "TPDO mapping parameter".toList = some (1800, 6) := by
  have hwf : WellFormed mappingObjects := ⟨by decide, by decide, by decide⟩
  obtain ⟨st, hscan, hsync, hmapping⟩ : ∃ st, scan (text true mappingObjects) = .ok st ∧
      st.parameterMap "SYNC start value".toList = some (1800, 6) ∧
      st.parameterMap "TPDO mapping parameter".toList = some (1800, 6) := by
    rw [scan_text hwf (.inl rfl)]
    exact ⟨_, rfl, rfl, rfl⟩
  refine ⟨hwf, ?_, st, hscan, hsync, hmapping⟩
  rintro ⟨st', hscan', hdiff, -⟩
  obtain rfl := Except.ok.inj (hscan.symm.trans hscan')
  obtain ⟨i, hi, j, hj, hij⟩ :=
    hdiff (.subObject "1800".toList "6".toList, "SYNC start value".toList) (by decide)
      (.object "1A00".toList, "TPDO mapping parameter".toList) (by decide) (by decide)
  rw [hsync] at hi
  rw [hmapping] at hj
  exact hij (Option.some.inj (hi.symm.trans hj))

end DcfParameterFinder

end CppPlayground
