import CppPlayground.TextStream
import Mathlib.Data.List.Induction
import Mathlib.Data.List.Infix
import Mathlib.Data.List.Nodup

/-!
# Compressing the output of a command

`async_compress_command_output.cpp` reads the output of a command line by line and writes it to
compressed files of 1000 lines each. The lines of a chunk are collected in a string stream, next
to a counter for them and the number of the next file; what is left at the end goes to a file
of its own.

After every line the files written so far hold full chunks, and the string stream holds the
lines after them (`Between`). So the files are the chunks of the output, in order
(`compressInChunks_eq`).
-/

namespace CppPlayground

namespace CompressOutput

open TextStream TextStream.IStream

variable {Z : Type*}

/-! ## The source -/

/-- The compressor, and what undoes it. -/
structure Codec (Z : Type*) where
  gzip : List Char → Z
  gunzip : Z → List Char

/-- What is assumed of the compressor. -/
def Codec.Lossless (codec : Codec Z) : Prop :=
  ∀ text, codec.gunzip (codec.gzip text) = text

/-- A file. -/
structure File (Z : Type*) where
  name : String
  content : Z
  deriving DecidableEq, Repr

/-- The name of the file with the given number. -/
def fileName (fileCount : ℕ) : String := "output" ++ Nat.repr fileCount ++ ".gz"

/-- `compress_output`: the file it writes. -/
def compressOutput (codec : Codec Z) (text : List Char) (fileCount : ℕ) : File Z :=
  ⟨fileName fileCount, codec.gzip text⟩

/-- The local variables of `main`. -/
structure Locals (Z : Type*) where
  /-- what has been written to `oss` -/
  oss : List Char
  lineCount : ℕ
  fileCount : ℕ
  /-- history: the files that were written, oldest first -/
  files : List (File Z)

/-- `compress_output(is_chunk, file_count++)`, with a stream on what is in `oss`. -/
def Locals.compress (codec : Codec Z) (v : Locals Z) : Locals Z :=
  { v with
    fileCount := v.fileCount + 1
    files := v.files ++ [compressOutput codec v.oss v.fileCount] }

/-- The body of the loop, for chunks of `limit` lines. -/
def addLine (codec : Codec Z) (limit : ℕ) (v : Locals Z) (line : List Char) : Locals Z :=
  let v := { v with oss := v.oss ++ (line ++ ['\n']), lineCount := v.lineCount + 1 }
  if v.lineCount = limit then { v.compress codec with oss := [], lineCount := 0 } else v

/-- What follows the loop. -/
def compressRest (codec : Codec Z) (v : Locals Z) : Locals Z :=
  if v.lineCount > 0 then v.compress codec else v

/-- The lines that `getline` splits a text into. -/
def linesOf (text : List Char) : List (List Char) := getlines '\n' (ofText text)

/-- The files for the output of a command, in chunks of `limit` lines. -/
def compressInChunks (codec : Codec Z) (limit : ℕ) (output : List Char) : List (File Z) :=
  (compressRest codec ((linesOf output).foldl (addLine codec limit) ⟨[], 0, 0, []⟩)).files

/-- `main`: the files it writes for the output of the command. -/
def compressCommandOutput (codec : Codec Z) (output : List Char) : List (File Z) :=
  compressInChunks codec 1000 output

/-- Different files have different names. -/
theorem fileName_injective : Function.Injective fileName := by
  intro m n h
  rw [fileName, fileName, String.append_left_inj, String.append_right_inj] at h
  have hdigits : Nat.toDigits 10 m = Nat.toDigits 10 n := by
    rw [← Nat.toList_repr, ← Nat.toList_repr, h]
  rw [← Nat.ofDigitChars_ten_toDigits (n := m), hdigits, Nat.ofDigitChars_ten_toDigits]

/-! ## Chunks of lines -/

/-- The text of some lines. -/
def textOf (lines : List (List Char)) : List Char := writeLines '\n' true lines

theorem textOf_concat (lines : List (List Char)) (line : List Char) :
    textOf (lines ++ [line]) = textOf lines ++ (line ++ ['\n']) := by
  simp [textOf, writeLines]

theorem textOf_flatten (chunks : List (List (List Char))) :
    textOf chunks.flatten = (chunks.map textOf).flatten := by
  induction chunks with
  | nil => rfl
  | cons chunk chunks ih =>
    rw [List.flatten_cons, List.map_cons, List.flatten_cons, ← ih]
    simp [textOf, writeLines]

/-- The newlines of a chunk are those after its lines. -/
theorem count_textOf {lines : List (List Char)} (h : ∀ line ∈ lines, '\n' ∉ line) :
    (textOf lines).count '\n' = lines.length := by
  induction lines with
  | nil => rfl
  | cons line lines ih =>
    obtain ⟨hline, hlines⟩ := List.forall_mem_cons.mp h
    have htext : textOf (line :: lines) = line ++ '\n' :: textOf lines := by
      simp [textOf, writeLines]
    rw [htext, List.count_append, List.count_eq_zero_of_not_mem hline, List.count_cons_self,
      ih hlines, Nat.zero_add, List.length_cons]

theorem getLast?_textOf {lines : List (List Char)} (h : 1 ≤ lines.length) :
    (textOf lines).getLast? = some '\n' := by
  rcases List.eq_nil_or_concat' lines with rfl | ⟨lines, line, rfl⟩
  · cases h
  · rw [textOf_concat, ← List.append_assoc, List.getLast?_concat]

/-- Lines are cut into chunks of `limit` lines, the last one of which may be shorter. -/
structure Chunked (limit : ℕ) (lines : List (List Char)) (chunks : List (List (List Char))) :
    Prop where
  flatten : chunks.flatten = lines
  full : ∀ chunk ∈ chunks.dropLast, chunk.length = limit
  last : ∀ chunk ∈ chunks.getLast?, 1 ≤ chunk.length ∧ chunk.length ≤ limit

theorem length_flatten_of_full {limit : ℕ} {chunks : List (List (List Char))}
    (h : ∀ chunk ∈ chunks, chunk.length = limit) :
    chunks.flatten.length = limit * chunks.length := by
  induction chunks with
  | nil => rfl
  | cons chunk chunks ih =>
    rw [List.flatten_cons, List.length_append, List.length_cons, Nat.mul_succ,
      h chunk (List.mem_cons_self ..), ih fun c hc => h c (List.mem_cons_of_mem _ hc),
      Nat.add_comm]

/-- The number of chunks is that of the lines divided by `limit`, rounded up. -/
theorem Chunked.length {limit : ℕ} {lines : List (List Char)} {chunks : List (List (List Char))}
    (h : Chunked limit lines chunks) (hlimit : 0 < limit) :
    chunks.length = (lines.length + (limit - 1)) / limit := by
  rw [← h.flatten]
  induction chunks using List.reverseRecOn with
  | nil =>
    symm
    apply Nat.div_eq_of_lt
    rw [List.flatten_nil, List.length_nil]
    omega
  | append_singleton chunks chunk _ =>
    have hfull : ∀ c ∈ chunks, c.length = limit := by
      have h := h.full
      rwa [List.dropLast_concat] at h
    obtain ⟨hlo, hhi⟩ := h.last chunk (by simp)
    have hsplit : (chunks ++ [chunk]).flatten.length + (limit - 1) =
        (chunk.length - 1) + limit * (chunks.length + 1) := by
      rw [List.flatten_append, List.length_append, length_flatten_of_full hfull, Nat.mul_succ,
        List.flatten_singleton]
      omega
    rw [hsplit, Nat.add_mul_div_left _ _ hlimit, Nat.div_eq_of_lt (by omega), List.length_append,
      List.length_singleton, Nat.zero_add]

/-- The files for some chunks. -/
def filesFor (codec : Codec Z) (chunks : List (List (List Char))) : List (File Z) :=
  chunks.mapIdx fun n chunk => compressOutput codec (textOf chunk) n

theorem filesFor_concat (codec : Codec Z) (chunks : List (List (List Char)))
    (chunk : List (List Char)) : filesFor codec (chunks ++ [chunk]) =
      filesFor codec chunks ++ [compressOutput codec (textOf chunk) chunks.length] :=
  List.mapIdx_concat

theorem names_filesFor (codec : Codec Z) (chunks : List (List (List Char))) :
    (filesFor codec chunks).map File.name = (List.range chunks.length).map fileName := by
  induction chunks using List.reverseRecOn with
  | nil => rfl
  | append_singleton chunks chunk ih =>
    rw [filesFor_concat, List.map_append, ih, List.length_append, List.length_singleton,
      List.range_succ, List.map_append]
    rfl

theorem contents_filesFor {codec : Codec Z} (hcodec : codec.Lossless)
    (chunks : List (List (List Char))) :
    ((filesFor codec chunks).map fun f => codec.gunzip f.content) = chunks.map textOf := by
  induction chunks using List.reverseRecOn with
  | nil => rfl
  | append_singleton chunks chunk ih =>
    rw [filesFor_concat, List.map_append, List.map_append, ih, List.map_singleton,
      compressOutput, hcodec, List.map_singleton]

/-! ## The loop -/

/-- **Between two lines** the files hold full chunks, and `oss` the `lineCount` lines that are
left. -/
structure Between (codec : Codec Z) (limit : ℕ) (chunks : List (List (List Char)))
    (rest : List (List Char)) (v : Locals Z) : Prop where
  oss : v.oss = textOf rest
  lineCount : v.lineCount = rest.length
  room : rest.length < limit
  fileCount : v.fileCount = chunks.length
  files : v.files = filesFor codec chunks
  full : ∀ chunk ∈ chunks, chunk.length = limit

/-- One line goes to the lines that are left, or completes a chunk. -/
theorem addLine_between {codec : Codec Z} {limit : ℕ} {chunks : List (List (List Char))}
    {rest : List (List Char)} {v : Locals Z} (h : Between codec limit chunks rest v)
    (line : List Char) :
    Between codec limit chunks (rest ++ [line]) (addLine codec limit v line) ∨
      Between codec limit (chunks ++ [rest ++ [line]]) [] (addLine codec limit v line) := by
  have hoss : v.oss ++ (line ++ ['\n']) = textOf (rest ++ [line]) := by
    rw [h.oss, textOf_concat]
  have hcount : v.lineCount + 1 = (rest ++ [line]).length := by
    rw [h.lineCount, List.length_append, List.length_singleton]
  have hroom := h.room
  by_cases hfull : v.lineCount + 1 = limit
  · right
    rw [addLine, if_pos hfull]
    refine ⟨rfl, rfl, Nat.zero_lt_of_lt hroom, ?_, ?_, ?_⟩
    · rw [List.length_append, List.length_singleton, ← h.fileCount]
      rfl
    · rw [filesFor_concat, ← h.files, ← hoss, ← h.fileCount]
      rfl
    · intro chunk hchunk
      rcases List.mem_append.mp hchunk with hchunk | hchunk
      · exact h.full chunk hchunk
      · rw [List.mem_singleton.mp hchunk, ← hcount, hfull]
  · left
    rw [addLine, if_neg hfull]
    refine ⟨hoss, hcount, ?_, h.fileCount, h.files, h.full⟩
    have hlineCount := h.lineCount
    rw [← hcount]
    omega

/-- The loop cuts off full chunks. -/
theorem foldl_addLine {codec : Codec Z} {limit : ℕ} (lines : List (List Char)) :
    ∀ {chunks : List (List (List Char))} {rest : List (List Char)} {v : Locals Z},
      Between codec limit chunks rest v →
      ∃ chunks' rest', chunks'.flatten ++ rest' = chunks.flatten ++ rest ++ lines ∧
        Between codec limit chunks' rest' (lines.foldl (addLine codec limit) v) := by
  induction lines with
  | nil =>
    intro chunks rest v h
    exact ⟨chunks, rest, (List.append_nil _).symm, h⟩
  | cons line lines ih =>
    intro chunks rest v h
    rcases addLine_between h line with h | h
    · obtain ⟨chunks', rest', heq, h'⟩ := ih h
      refine ⟨chunks', rest', ?_, h'⟩
      rw [heq]
      simp only [List.append_assoc, List.singleton_append]
    · obtain ⟨chunks', rest', heq, h'⟩ := ih h
      refine ⟨chunks', rest', ?_, h'⟩
      rw [heq, List.flatten_append, List.flatten_singleton, List.append_nil]
      simp only [List.append_assoc, List.singleton_append]

/-- What is left becomes the last chunk. -/
theorem compressRest_chunked {codec : Codec Z} {limit : ℕ} {chunks : List (List (List Char))}
    {rest : List (List Char)} {v : Locals Z} (h : Between codec limit chunks rest v) :
    ∃ chunks', Chunked limit (chunks.flatten ++ rest) chunks' ∧
      (compressRest codec v).files = filesFor codec chunks' := by
  have hroom := h.room
  by_cases hrest : rest.length > 0
  · refine ⟨chunks ++ [rest], ⟨?_, ?_, ?_⟩, ?_⟩
    · rw [List.flatten_append, List.flatten_singleton]
    · rw [List.dropLast_concat]
      exact h.full
    · intro chunk hchunk
      rw [List.getLast?_concat, Option.mem_some_iff] at hchunk
      subst hchunk
      exact ⟨hrest, hroom.le⟩
    · rw [compressRest, if_pos (h.lineCount ▸ hrest), filesFor_concat, ← h.files, ← h.oss,
        ← h.fileCount]
      rfl
  · obtain rfl : rest = [] := List.length_eq_zero_iff.mp (Nat.eq_zero_of_not_pos hrest)
    refine ⟨chunks, ⟨(List.append_nil _).symm, ?_, ?_⟩, ?_⟩
    · intro chunk hchunk
      exact h.full chunk (List.mem_of_mem_dropLast hchunk)
    · intro chunk hchunk
      have hlen := h.full chunk (List.mem_of_getLast? hchunk)
      omega
    · rw [compressRest, if_neg (h.lineCount ▸ hrest), h.files]

/-- **The files are the chunks of the output.** -/
theorem compressInChunks_eq (codec : Codec Z) {limit : ℕ} (hlimit : 0 < limit)
    (output : List Char) : ∃ chunks, Chunked limit (linesOf output) chunks ∧
      compressInChunks codec limit output = filesFor codec chunks := by
  have hinit : Between codec limit [] [] ⟨[], 0, 0, []⟩ :=
    ⟨rfl, rfl, hlimit, rfl, rfl, fun _ h => absurd h List.not_mem_nil⟩
  obtain ⟨chunks, rest, heq, h⟩ := foldl_addLine (linesOf output) hinit
  obtain ⟨chunks', hchunked, hfiles⟩ := compressRest_chunked h
  rw [heq] at hchunked
  exact ⟨chunks', hchunked, hfiles⟩

/-- No chunk is empty. -/
theorem Chunked.nonempty {limit : ℕ} {lines : List (List Char)} {chunks : List (List (List Char))}
    (h : Chunked limit lines chunks) (hlimit : 0 < limit) {chunk : List (List Char)}
    (hchunk : chunk ∈ chunks) : 1 ≤ chunk.length := by
  rcases List.eq_nil_or_concat' chunks with rfl | ⟨chunks, last, rfl⟩
  · cases hchunk
  · rcases List.mem_append.mp hchunk with hmem | hmem
    · rw [h.full chunk (by rwa [List.dropLast_concat])]
      exact hlimit
    · rw [List.mem_singleton.mp hmem]
      exact (h.last last (by simp)).1

/-! ## A compressor -/

/-- One more character in front of some runs. -/
def addToRuns (c : Char) : List (Char × ℕ) → List (Char × ℕ)
  | (d, n) :: runs => if c = d then (d, n + 1) :: runs else (c, 1) :: (d, n) :: runs
  | [] => [(c, 1)]

/-- The characters of some runs. -/
def ofRuns (runs : List (Char × ℕ)) : List Char :=
  runs.flatMap fun run => List.replicate run.2 run.1

/-- A compressor that counts the repetitions of a character. -/
def runLength : Codec (List (Char × ℕ)) where
  gzip := List.foldr addToRuns []
  gunzip := ofRuns

theorem ofRuns_addToRuns (c : Char) (runs : List (Char × ℕ)) :
    ofRuns (addToRuns c runs) = c :: ofRuns runs := by
  cases runs with
  | nil => rfl
  | cons run runs =>
    rw [addToRuns]
    split
    · next h =>
      subst h
      simp [ofRuns, List.replicate_succ]
    · rfl

theorem runLength_lossless : runLength.Lossless := by
  intro text
  induction text with
  | nil => rfl
  | cons c text ih =>
    have hcons : runLength.gunzip (runLength.gzip (c :: text)) =
        c :: runLength.gunzip (runLength.gzip text) := ofRuns_addToRuns c _
    rw [hcons, ih]

/-! ## The contents of the files -/

/-- **Every line is kept, in order.** The lines of the output are cut at its newlines. The files
have the numbers from 0 on, one for every 1000 lines or part of them, and none is written twice;
each ends in a newline, all but the last one hold 1000 lines, and the last one holds some. Their
contents one after the other are the lines of the output with a newline after each, which is the
output itself if it is empty or ends in a newline. -/
theorem compressCommandOutput_spec {codec : Codec Z} (hcodec : codec.Lossless)
    (output : List Char) :
    let lines := linesOf output
    let files := compressCommandOutput codec output
    let contents := files.map fun f => codec.gunzip f.content
    ((∀ line ∈ lines, '\n' ∉ line) ∧ lines.flatMap (· ++ ['\n']) = terminated '\n' output) ∧
      files.map File.name = (List.range ((lines.length + 999) / 1000)).map fileName ∧
      (files.map File.name).Nodup ∧
      (∀ content ∈ contents, content.getLast? = some '\n') ∧
      (∀ content ∈ contents.dropLast, content.count '\n' = 1000) ∧
      (∀ content ∈ contents.getLast?,
        1 ≤ content.count '\n' ∧ content.count '\n' ≤ 1000) ∧
      contents.flatten = terminated '\n' output ∧
      (output = [] ∨ output.getLast? = some '\n' → contents.flatten = output) := by
  intro lines files contents
  obtain ⟨chunks, hchunked, hfiles⟩ := compressInChunks_eq codec (Nat.succ_pos 999) output
  have hcontents : contents = chunks.map textOf := by
    rw [← contents_filesFor hcodec chunks, ← hfiles]
    rfl
  have hnames : files.map File.name = (List.range chunks.length).map fileName := by
    rw [← names_filesFor codec, ← hfiles]
    rfl
  have hlines : ∀ line ∈ lines, '\n' ∉ line := fun line hline => not_mem_of_mem_getlines hline
  have htext : textOf lines = terminated '\n' output := writeLines_getlines '\n' output
  have hflatten : contents.flatten = terminated '\n' output := by
    rw [hcontents, ← textOf_flatten, hchunked.flatten]
    exact htext
  -- a content has as many newlines as its chunk has lines
  have hcount : ∀ chunk ∈ chunks, (textOf chunk).count '\n' = chunk.length := by
    intro chunk hchunk
    refine count_textOf fun line hline => hlines line ?_
    have hmem : line ∈ chunks.flatten := List.mem_flatten.mpr ⟨chunk, hchunk, hline⟩
    rwa [hchunked.flatten] at hmem
  refine ⟨⟨hlines, htext⟩, ?_, ?_, ?_, ?_, ?_, hflatten, ?_⟩
  · rw [hnames, hchunked.length (by decide)]
  · rw [hnames]
    exact List.nodup_range.map fileName_injective
  · rw [hcontents]
    intro content hcontent
    obtain ⟨chunk, hchunk, rfl⟩ := List.mem_map.mp hcontent
    exact getLast?_textOf (hchunked.nonempty (by decide) hchunk)
  · rw [hcontents, ← List.map_dropLast]
    intro content hcontent
    obtain ⟨chunk, hchunk, rfl⟩ := List.mem_map.mp hcontent
    rw [hcount chunk (List.mem_of_mem_dropLast hchunk)]
    exact hchunked.full chunk hchunk
  · rw [hcontents, List.getLast?_map]
    intro content hcontent
    obtain ⟨chunk, hchunk, rfl⟩ := Option.mem_map.mp hcontent
    rw [hcount chunk (List.mem_of_getLast? hchunk)]
    exact hchunked.last chunk hchunk
  · intro hend
    rw [hflatten, terminated, if_pos hend]

/-- The output is 2500 empty lines. -/
theorem compressCommandOutput_emptyLines :
    let files := compressCommandOutput runLength (List.replicate 2500 '\n')
    files.map File.name = ["output0.gz", "output1.gz", "output2.gz"] ∧
      (files.map fun f => runLength.gunzip f.content).flatten = List.replicate 2500 '\n' := by
  have hend : (List.replicate 2500 '\n').getLast? = some '\n' := by
    rw [List.getLast?_replicate]
    rfl
  obtain ⟨⟨hlines, htext⟩, hnames, -, -, -, -, -, hkeep⟩ :=
    compressCommandOutput_spec runLength_lossless (List.replicate 2500 '\n')
  have hlength : (linesOf (List.replicate 2500 '\n')).length = 2500 := by
    rw [terminated, if_pos (.inr hend)] at htext
    rw [← count_textOf hlines, textOf, writeLines, if_pos rfl, htext, List.count_replicate_self]
  rw [hlength] at hnames
  exact ⟨hnames, hkeep (.inr hend)⟩

end CompressOutput

end CppPlayground
