import CppPlayground.TextStream

/-!
# The CSV reader

`load_csv_file` (`csv_reader/csv_reader.h`) reads a file line by line and hands every line to
the constructor of the row type, which calls `parse_token` once for every column, as
`MatrixData` does in a loop and `SensorData` for the elements of its tuple. `parse_token` cuts
one field off the line and extracts a value from it with `>>`.

The fields of a written line are met one after the other (`parseTokens_atFields`), so a loaded
row is the extraction of the row that was written (`loadCsvFile_writeLines`). Whether it is the
row itself is then a question about the extraction alone: it is for integers
(`loadCsvFile_int`), and for strings exactly if they have no white space
(`loadCsvFile_string_iff`).
-/

namespace CppPlayground

namespace CsvReader

open TextStream TextStream.IStream

variable {α : Type*}

/-! ## The source -/

/-- `parse_token`, with `extract` for the result of `stoken >> result` on a stream over the
token. -/
def parseToken (extract : List Char → α) (sep : Char) (ss : IStream) : α × IStream :=
  -- `token` is a fresh string, so a call on a stream that is not good leaves it empty
  let r := getline sep [] ss
  (extract r.1, r.2)

/-- The calls of `parse_token` in a row constructor, one for every column, in their order. -/
def parseTokens : List (List Char → α) → IStream → List α × IStream
  | [], ss => ([], ss)
  | extract :: extracts, ss =>
    let r := parseToken extract ',' ss
    let rs := parseTokens extracts r.2
    (r.1 :: rs.1, rs.2)

/-- A row type that is constructed from `k` calls of `parse_token` for one type, as
`MatrixData<T, k>` is. -/
def row (extract : List Char → α) (k : ℕ) (csvLine : List Char) : List α :=
  (parseTokens (List.replicate k extract) (ofText csvLine)).1

/-- `load_csv_file`, from the content of the file, if there is one, and the constructor of the
row type. -/
def loadCsvFile (construct : List Char → α) (file : Option (List Char)) (hasHeader : Bool) :
    List α :=
  let data := ofFile file
  let data := if hasHeader then (getline '\n' [] data).2 else data
  (getlines '\n' data).map construct

/-- A row as it is written: the fields joined by commas. -/
def csvLine (fields : List (List Char)) : List Char := [','].intercalate fields

/-! ## One line -/

/-- **The columns stay aligned.** Whatever the calls extract, each takes the next field, and
they leave the stream in front of the fields that are left. -/
theorem parseTokens_atFields {gs : List (List Char)} :
    ∀ {extracts : List (List Char → α)} {fs : List (List Char)} {ss : IStream},
      AtFields ',' (fs ++ gs) ss → extracts.length = fs.length → (∀ f ∈ fs, ',' ∉ f) →
      (parseTokens extracts ss).1 = List.zipWith (fun extract f => extract f) extracts fs ∧
        AtFields ',' gs (parseTokens extracts ss).2 := by
  intro extracts
  induction extracts with
  | nil =>
    intro fs ss hat hlen _
    obtain rfl : fs = [] := List.length_eq_zero_iff.mp hlen.symm
    exact ⟨rfl, hat⟩
  | cons extract extracts ih =>
    intro fs ss hat hlen hsep
    cases fs with
    | nil => cases hlen
    | cons f fs =>
      obtain ⟨htoken, hnext⟩ := AtFields.getline hat (hsep f (List.mem_cons_self ..)) []
      obtain ⟨hrow, hend⟩ := ih hnext (Nat.succ.inj hlen)
        fun g hg => hsep g (List.mem_cons_of_mem _ hg)
      refine ⟨?_, hend⟩
      rw [parseTokens, List.zipWith_cons_cons, ← hrow, ← htoken]
      rfl

theorem zipWith_replicate_apply (extract : List Char → α) (fs : List (List Char)) :
    List.zipWith (fun extract f => extract f) (List.replicate fs.length extract) fs =
      fs.map extract := by
  induction fs with
  | nil => rfl
  | cons f fs ih =>
    rw [List.length_cons, List.replicate_succ, List.zipWith_cons_cons, ih, List.map_cons]

/-- The calls for the first columns, from the start of a line on. -/
theorem parseTokens_csvLine (extract : List Char → α) (fs gs : List (List Char))
    (hne : fs ++ gs ≠ []) (hsep : ∀ f ∈ fs, ',' ∉ f) :
    (parseTokens (List.replicate fs.length extract) (ofText (csvLine (fs ++ gs)))).1 =
        fs.map extract ∧
      AtFields ',' gs
        (parseTokens (List.replicate fs.length extract) (ofText (csvLine (fs ++ gs)))).2 := by
  have hat : AtFields ',' (fs ++ gs) (ofText (csvLine (fs ++ gs))) := by
    cases h : fs ++ gs with
    | nil => exact absurd h hne
    | cons f rest => rfl
  have hlen : (List.replicate fs.length extract).length = fs.length := List.length_replicate
  obtain ⟨hvalues, hend⟩ := parseTokens_atFields hat hlen hsep
  rw [zipWith_replicate_apply] at hvalues
  exact ⟨hvalues, hend⟩

theorem row_csvLine {extract : List Char → α} {fs : List (List Char)} (hne : fs ≠ [])
    (hsep : ∀ f ∈ fs, ',' ∉ f) : row extract fs.length (csvLine fs) = fs.map extract := by
  have h := (parseTokens_csvLine extract fs [] (by simpa using hne) hsep).1
  rwa [List.append_nil] at h

/-- The first `i` calls on a written row take its first `i` entries, and only them. -/
theorem parseTokens_take {β : Type*} (extract : List Char → α) (write : β → List Char)
    {entries : List β} {i : ℕ} (hi : i ≤ entries.length) (hne : entries.map write ≠ [])
    (hsep : ∀ e ∈ entries, ',' ∉ write e) :
    (parseTokens (List.replicate i extract) (ofText (csvLine (entries.map write)))).1 =
        ((entries.take i).map fun e => extract (write e)) ∧
      AtFields ',' ((entries.drop i).map write)
        (parseTokens (List.replicate i extract) (ofText (csvLine (entries.map write)))).2 := by
  have hlen : ((entries.take i).map write).length = i := by
    rw [List.length_map, List.length_take, Nat.min_eq_left hi]
  have hsplit : (entries.take i).map write ++ (entries.drop i).map write = entries.map write := by
    rw [← List.map_append, List.take_append_drop]
  have hsep' : ∀ f ∈ (entries.take i).map write, ',' ∉ f := by
    intro f hf
    obtain ⟨e, he, rfl⟩ := List.mem_map.mp hf
    exact hsep e (List.mem_of_mem_take he)
  obtain ⟨hvalues, hrest⟩ :=
    parseTokens_csvLine extract _ ((entries.drop i).map write) (by rwa [hsplit]) hsep'
  rw [hsplit, hlen] at hvalues hrest
  refine ⟨?_, hrest⟩
  rw [hvalues, List.map_map]
  rfl

/-! ## The whole file -/

/-- A header line is read like any other, and then left out. -/
theorem loadCsvFile_eq (construct : List Char → α) (file : Option (List Char))
    (hasHeader : Bool) :
    loadCsvFile construct file hasHeader =
      (if hasHeader then (getlines '\n' (ofFile file)).tail
        else getlines '\n' (ofFile file)).map construct := by
  rw [loadCsvFile]
  cases hasHeader with
  | true =>
    simp only [if_true]
    rw [getlines_getline]
  | false => rfl

/-- The lines behind the header are the ones constructed from, if a last line without its
newline has a character in it. -/
theorem loadCsvFile_lines (construct : List Char → α) {header : Option (List Char)}
    {closed : Bool} {lines : List (List Char)} (hnl : ∀ l ∈ header.toList ++ lines, '\n' ∉ l)
    (hlast : closed = true ∨ ∀ l ∈ lines, l ≠ []) :
    loadCsvFile construct (some (writeLines '\n' closed (header.toList ++ lines)))
      header.isSome = lines.map construct := by
  rw [loadCsvFile_eq]
  by_cases hback : closed = true ∨ ∀ l ∈ (header.toList ++ lines).getLast?, l ≠ []
  · rw [ofFile, getlines_writeLines hnl hback]
    cases header <;> rfl
  · -- the only unclosed empty line there can be is that of a header with nothing behind it
    obtain ⟨hclosed, hempty⟩ := not_or.mp hback
    obtain rfl : closed = false := Bool.eq_false_iff.mpr hclosed
    have hlines : lines = [] := by
      by_contra hne
      refine hempty fun l hl => hlast.resolve_left (by decide) l ?_
      rw [List.getLast?_append_of_ne_nil _ hne] at hl
      exact List.mem_of_mem_getLast? hl
    subst hlines
    cases header with
    | none => exact absurd (by simp) hempty
    | some h =>
      obtain rfl : h = [] := by simpa using hempty
      have htext : writeLines '\n' false (Option.toList (some []) ++ []) = [] := rfl
      rw [htext, ofFile, getlines_empty]
      rfl

/-- A table as it is written, with a way to write each entry. -/
def csvLines {β : Type*} (write : β → List Char) (table : List (List β)) : List (List Char) :=
  table.map fun entries => csvLine (entries.map write)

theorem map_ne_nil {β : Type*} {k : ℕ} {entries : List β} (write : β → List Char)
    (hlen : entries.length = k) (hk : 0 < k) : entries.map write ≠ [] := by
  refine List.ne_nil_of_length_pos ?_
  rw [List.length_map, hlen]
  exact hk

theorem csvLine_ne_nil {fields : List (List Char)} (hne : fields ≠ [])
    (hfields : ∀ f ∈ fields, f ≠ []) : csvLine fields ≠ [] := by
  cases fields with
  | nil => exact absurd rfl hne
  | cons f fs =>
    have hf : f ≠ [] := hfields f (List.mem_cons_self ..)
    cases fs with
    | nil =>
      rw [csvLine, List.intercalate_singleton]
      exact hf
    | cons g fs =>
      rw [csvLine, List.intercalate_cons_cons]
      simp [hf]

/-- **What is loaded is the extraction of what was written.** -/
theorem loadCsvFile_writeLines {β : Type*} {k : ℕ} {table : List (List β)}
    (extract : List Char → α) (write : β → List Char) (header : Option (List Char))
    (closed : Bool) (hk : 0 < k) (hlen : ∀ entries ∈ table, entries.length = k)
    (hfields : ∀ entries ∈ table, ∀ e ∈ entries, ',' ∉ write e ∧ '\n' ∉ write e)
    (hheader : ∀ h ∈ header, '\n' ∉ h)
    (hlast : closed = true ∨ ∀ entries ∈ table, ∀ e ∈ entries, write e ≠ []) :
    loadCsvFile (row extract k)
        (some (writeLines '\n' closed (header.toList ++ csvLines write table))) header.isSome =
      table.map fun entries => entries.map fun e => extract (write e) := by
  have hwritten : ∀ entries ∈ table, entries.map write ≠ [] := fun entries hmem =>
    map_ne_nil write (hlen entries hmem) hk
  have hnl : ∀ l ∈ header.toList ++ csvLines write table, '\n' ∉ l := by
    intro l hl
    rcases List.mem_append.mp hl with hl | hl
    · exact hheader l (Option.mem_toList.mp hl)
    · obtain ⟨entries, hmem, rfl⟩ := List.mem_map.mp hl
      refine not_mem_intercalate (by decide) fun f hf => ?_
      obtain ⟨e, he, rfl⟩ := List.mem_map.mp hf
      exact (hfields entries hmem e he).2
  have hne : closed = true ∨ ∀ l ∈ csvLines write table, l ≠ [] := by
    refine hlast.imp_right fun hlast l hl => ?_
    obtain ⟨entries, hmem, rfl⟩ := List.mem_map.mp hl
    refine csvLine_ne_nil (hwritten entries hmem) fun f hf => ?_
    obtain ⟨e, he, rfl⟩ := List.mem_map.mp hf
    exact hlast entries hmem e he
  rw [loadCsvFile_lines _ hnl hne, csvLines, List.map_map]
  refine List.map_congr_left fun entries hmem => ?_
  have hk' : (entries.map write).length = k := by rw [List.length_map, hlen entries hmem]
  have hsep : ∀ f ∈ entries.map write, ',' ∉ f := by
    intro f hf
    obtain ⟨e, he, rfl⟩ := List.mem_map.mp hf
    exact (hfields entries hmem e he).1
  rw [Function.comp_apply, ← hk', row_csvLine (hwritten entries hmem) hsep, List.map_map]
  rfl

/-! ## Text columns -/

theorem map_eq_self_iff {β : Type*} {f : β → β} {l : List β} :
    l.map f = l ↔ ∀ a ∈ l, f a = a := by
  have h := List.map_eq_map_iff (f := f) (g := id) (l := l)
  rw [List.map_id] at h
  exact h

theorem loadCsvFile_string {k : ℕ} {header : List Char} {table : List (List (List Char))}
    (hk : 0 < k) (hheader : '\n' ∉ header) (hlen : ∀ fields ∈ table, fields.length = k)
    (hfields : ∀ fields ∈ table, ∀ f ∈ fields, ',' ∉ f ∧ '\n' ∉ f) :
    loadCsvFile (row word k) (some (writeLines '\n' true (header :: table.map csvLine))) true =
      table.map fun fields => fields.map word := by
  have h := loadCsvFile_writeLines word id (some header) true hk hlen hfields
    (by simpa using hheader) (.inl rfl)
  simpa [csvLines] using h

/-- **Text columns survive if and only if no field has a white space character.** White space
in front of a field is skipped, and everything from the next white space on is lost. -/
theorem loadCsvFile_string_iff {k : ℕ} {header : List Char} {table : List (List (List Char))}
    (hk : 0 < k) (hheader : '\n' ∉ header) (hlen : ∀ fields ∈ table, fields.length = k)
    (hfields : ∀ fields ∈ table, ∀ f ∈ fields, ',' ∉ f ∧ '\n' ∉ f) :
    loadCsvFile (row word k) (some (writeLines '\n' true (header :: table.map csvLine))) true =
        table ↔
      ∀ fields ∈ table, ∀ f ∈ fields, ∀ c ∈ f, isSpace c = false := by
  rw [loadCsvFile_string hk hheader hlen hfields, map_eq_self_iff]
  constructor
  · intro h fields hmem f hf
    exact word_eq_self_iff.mp (map_eq_self_iff.mp (h fields hmem) f hf)
  · intro h fields hmem
    exact map_eq_self_iff.mpr fun f hf => word_eq_self_iff.mpr (h fields hmem f hf)

/-- A table with empty fields, also at the end of a line, comes back. -/
theorem loadCsvFile_string_emptyFields :
    (∀ fields ∈ [["arm".toList, [], "rad".toList], [[], [], []]], fields.length = 3) ∧
    loadCsvFile (row word 3)
        (some (writeLines '\n' true ("part, ,unit".toList ::
          [["arm".toList, [], "rad".toList], [[], [], []]].map csvLine))) true =
      [["arm".toList, [], "rad".toList], [[], [], []]] := by
  have hwords : ∀ fields ∈ [["arm".toList, [], "rad".toList], [[], [], []]], ∀ f ∈ fields,
      word f = f := by decide
  refine ⟨by decide, (loadCsvFile_string_iff (by decide) (by decide) (by decide)
    (by decide)).mpr fun fields hmem f hf => word_eq_self_iff.mp (hwords fields hmem f hf)⟩

/-- `left arm` comes back as `left`. -/
theorem loadCsvFile_string_truncated :
    loadCsvFile (row word 2) (some "part,unit\nleft arm,rad\n".toList) true =
        [["left".toList, "rad".toList]] ∧
      writeLines '\n' true ("part,unit".toList :: [["left arm".toList, "rad".toList]].map csvLine) =
        "part,unit\nleft arm,rad\n".toList ∧
      loadCsvFile (row word 2)
          (some (writeLines '\n' true
            ("part,unit".toList :: [["left arm".toList, "rad".toList]].map csvLine))) true ≠
        [["left arm".toList, "rad".toList]] := by
  decide +kernel

/-! ## Integer columns -/

theorem notMem_decimal (n : ℤ) : ',' ∉ decimal n ∧ '\n' ∉ decimal n := by
  constructor
  · intro h
    rcases isDigit_or_eq_of_mem_decimal h with h | h <;> exact absurd h (by decide)
  · intro h
    rcases isDigit_or_eq_of_mem_decimal h with h | h <;> exact absurd h (by decide)

/-- **Integer tables survive the reader**, with or without a header line and with or without a
newline behind the last line. In every row the first `i` calls return the first `i` entries
and leave the stream in front of the others. -/
theorem loadCsvFile_int {k : ℕ} {table : List (List ℤ)} {header : Option (List Char)}
    {closed : Bool} (hk : 0 < k) (hheader : ∀ h ∈ header, '\n' ∉ h)
    (hlen : ∀ entries ∈ table, entries.length = k)
    (hint : ∀ entries ∈ table, ∀ n ∈ entries, intMin ≤ n ∧ n ≤ intMax) :
    loadCsvFile (row extractInt k)
        (some (writeLines '\n' closed (header.toList ++ csvLines decimal table)))
        header.isSome = (table.map fun entries => entries.map some) ∧
      ∀ entries ∈ table, ∀ i ≤ k,
        (parseTokens (List.replicate i extractInt)
            (ofText (csvLine (entries.map decimal)))).1 = (entries.take i).map some ∧
        AtFields ',' ((entries.drop i).map decimal)
          (parseTokens (List.replicate i extractInt)
            (ofText (csvLine (entries.map decimal)))).2 := by
  have hextract : ∀ entries ∈ table, ∀ n ∈ entries, extractInt (decimal n) = some n :=
    fun entries hmem n hn => extractInt_decimal (hint entries hmem n hn).1 (hint entries hmem n hn).2
  constructor
  · rw [loadCsvFile_writeLines extractInt decimal header closed hk hlen
      (fun _ _ n _ => notMem_decimal n) hheader (.inr fun _ _ n _ => decimal_ne_nil n)]
    exact List.map_congr_left fun entries hmem => List.map_congr_left (hextract entries hmem)
  · intro entries hmem i hi
    have hi' : i ≤ entries.length := by rwa [hlen entries hmem]
    obtain ⟨hvalues, hrest⟩ := parseTokens_take extractInt decimal hi'
      (map_ne_nil decimal (hlen entries hmem) hk) fun n _ => (notMem_decimal n).1
    refine ⟨?_, hrest⟩
    rw [hvalues]
    exact List.map_congr_left fun n hn => hextract entries hmem n (List.mem_of_mem_take hn)

/-- The extreme values of `int`, behind a header, and a last line without a newline. -/
theorem loadCsvFile_int_extremes :
    (∀ entries ∈ [[0, intMin], [intMax, -7]], ∀ n ∈ entries, intMin ≤ n ∧ n ≤ intMax) ∧
    loadCsvFile (row extractInt 2)
        (some (writeLines '\n' false (Option.toList (some "a,b".toList) ++
          csvLines decimal [[0, intMin], [intMax, -7]]))) (some "a,b".toList).isSome =
      [[0, intMin], [intMax, -7]].map fun entries => entries.map some := by
  have hheader : ∀ h ∈ some "a,b".toList, '\n' ∉ h := by decide
  have hint : ∀ entries ∈ [[0, intMin], [intMax, -7]], ∀ n ∈ entries,
      intMin ≤ n ∧ n ≤ intMax := by decide
  exact ⟨hint, (loadCsvFile_int (by decide) hheader (by decide) hint).1⟩

end CsvReader

end CppPlayground
