import Mathlib.Algebra.Order.Ring.Int
import Mathlib.Data.List.Basic
import Mathlib.Data.List.TakeWhile
import Mathlib.Tactic.Common

/-!
# Input streams over text

The part of formatted and unformatted stream input that text readers are built from.

* `IStream` — the characters still to be read and the two state bits.
* `getline` — one call, and `getlines`, the loop that calls it until it fails.
* `AtFields` — a stream stands in front of the given fields of a separated line; every
  `getline` moves it past one of them (`AtFields.getline`).
* `word`, `extractInt` — what extraction into a string and into an `int` reads from a text;
  `decimal` writes an integer, and `scanInt_decimal_append` reads it back.
* `stoi`, `stol`, `find` — the functions of these names on strings.

A string is the list of its characters.
-/

namespace TextStream

/-- An input stream: the characters not yet read, `eofbit` and `failbit`. -/
structure IStream where
  rest : List Char
  eof : Bool
  fail : Bool
  deriving DecidableEq, Repr

namespace IStream

/-- A stream at the start of a text. -/
def ofText (text : List Char) : IStream := ⟨text, false, false⟩

/-- A stream on a file: with no file to open it starts in the failed state. -/
def ofFile : Option (List Char) → IStream
  | some text => ofText text
  | none => ⟨[], false, true⟩

def good (s : IStream) : Bool := !s.eof && !s.fail

theorem good_ofText (text : List Char) : (ofText text).good = true := rfl

end IStream

open IStream

/-! ## Reading up to a delimiter -/

/-- `std::getline(s, str, delim)`. A stream that is not good fails and leaves `str` alone.
Otherwise the characters up to the delimiter are the new `str`, and the delimiter is dropped;
if there is none, all characters are, the end of the file has been seen, and the call fails if
there was nothing to read. -/
def getline (delim : Char) (str : List Char) (s : IStream) : List Char × IStream :=
  if s.good then
    if delim ∈ s.rest then
      (s.rest.takeWhile (· ≠ delim), { s with rest := (s.rest.dropWhile (· ≠ delim)).tail })
    else
      (s.rest, ⟨[], true, s.rest.isEmpty⟩)
  else
    (str, { s with fail := true })

/-- A call that finds the delimiter. -/
theorem getline_append {delim : Char} {l : List Char} (h : delim ∉ l) (str rest : List Char) :
    getline delim str (ofText (l ++ delim :: rest)) = (l, ofText rest) := by
  have hall : ∀ c ∈ l, decide (c ≠ delim) = true := by
    intro c hc
    exact decide_eq_true fun heq => h (heq ▸ hc)
  have htake : (l ++ delim :: rest).takeWhile (· ≠ delim) = l := by
    rw [List.takeWhile_append_of_pos hall, List.takeWhile_cons_of_neg (by simp), List.append_nil]
  have hdrop : (l ++ delim :: rest).dropWhile (· ≠ delim) = delim :: rest := by
    rw [List.dropWhile_append_of_pos hall, List.dropWhile_cons_of_neg (by simp)]
  rw [getline, if_pos (good_ofText _), if_pos (by simp [ofText])]
  simp only [ofText, htake, hdrop, List.tail_cons]

/-- A call that reaches the end of the text. -/
theorem getline_last {delim : Char} {l : List Char} (h : delim ∉ l) (str : List Char) :
    getline delim str (ofText l) = (l, ⟨[], true, l.isEmpty⟩) := by
  rw [getline, if_pos (good_ofText _), if_neg (show delim ∉ (ofText l).rest from h)]
  rfl

theorem getline_of_eof {s : IStream} (h : s.eof = true) (delim : Char) (str : List Char) :
    getline delim str s = (str, { s with fail := true }) := by
  rw [getline, if_neg (by simp [good, h])]

theorem length_tail_dropWhile_lt {delim : Char} {l : List Char} (h : delim ∈ l) :
    ((l.dropWhile (· ≠ delim)).tail).length < l.length := by
  have hle := (List.dropWhile_suffix (fun c => decide (c ≠ delim)) (l := l)).length_le
  have hpos : 0 < l.length := List.length_pos_of_mem h
  rw [List.length_tail]
  omega

/-- How many calls can still succeed: a successful one takes a character or sees the end of the
file. -/
def IStream.remaining (s : IStream) : ℕ := s.rest.length + if s.eof then 0 else 1

theorem remaining_getline_lt {delim : Char} {str : List Char} {s : IStream}
    (h : (getline delim str s).2.fail = false) :
    (getline delim str s).2.remaining < s.remaining := by
  by_cases hgood : s.good = true
  · have heof : s.eof = false := by
      cases he : s.eof with
      | false => rfl
      | true => simp [good, he] at hgood
    by_cases hmem : delim ∈ s.rest
    · have hlt := length_tail_dropWhile_lt hmem
      rw [getline, if_pos hgood, if_pos hmem]
      simp only [remaining, heof]
      omega
    · rw [getline, if_pos hgood, if_neg hmem]
      simp [remaining, heof]
  · rw [getline, if_neg hgood] at h
    cases h

/-- `while (std::getline(s, line, delim))`: the lines read before the first call that fails.
What `line` holds before a call is kept only by a call that fails, and is not looked at then. -/
def getlines (delim : Char) (s : IStream) : List (List Char) :=
  if (getline delim [] s).2.fail = false then
    (getline delim [] s).1 :: getlines delim (getline delim [] s).2
  else
    []
termination_by s.remaining
decreasing_by exact remaining_getline_lt ‹_›

/-- One round of the loop that succeeds. -/
theorem getlines_cons {delim : Char} {s s' : IStream} {l : List Char}
    (h : getline delim [] s = (l, s')) (hok : s'.fail = false) :
    getlines delim s = l :: getlines delim s' := by
  rw [getlines, h, if_pos hok]

/-- The round that ends the loop. -/
theorem getlines_nil {delim : Char} {s : IStream} (h : (getline delim [] s).2.fail = true) :
    getlines delim s = [] := by
  rw [getlines, if_neg (by simp [h])]

/-- Reading one line ahead of the loop drops the first line; if that call fails, the next one
does as well. -/
theorem getlines_getline (delim : Char) (s : IStream) :
    getlines delim (getline delim [] s).2 = (getlines delim s).tail := by
  by_cases hok : (getline delim [] s).2.fail = false
  · have hcons : getlines delim s = _ :: getlines delim (getline delim [] s).2 :=
      getlines_cons (Prod.mk.eta).symm hok
    rw [hcons, List.tail_cons]
  · rw [Bool.not_eq_false] at hok
    have hbad : ¬ (getline delim [] s).2.good = true := by simp [good, hok]
    rw [getlines_nil hok, getlines_nil (by rw [getline, if_neg hbad]), List.tail_nil]

/-! ## Lines of a text -/

theorem getlines_append {delim : Char} {l : List Char} (h : delim ∉ l) (rest : List Char) :
    getlines delim (ofText (l ++ delim :: rest)) = l :: getlines delim (ofText rest) :=
  getlines_cons (getline_append h [] rest) rfl

theorem getlines_empty (delim : Char) : getlines delim (ofText []) = [] :=
  getlines_nil rfl

/-- The last line may lack its delimiter, if there is a character in it. -/
theorem getlines_last {delim : Char} {l : List Char} (h : delim ∉ l) (hne : l ≠ []) :
    getlines delim (ofText l) = [l] := by
  rw [getlines_cons (getline_last h []) (by simpa using hne)]
  rw [getlines_nil (by rw [getline_of_eof rfl])]

/-- Every line followed by the delimiter, or, without `closed`, every line but the last. -/
def writeLines (delim : Char) (closed : Bool) (lines : List (List Char)) : List Char :=
  if closed then lines.flatMap (· ++ [delim]) else [delim].intercalate lines

theorem writeLines_cons_cons (delim : Char) (closed : Bool) (l l' : List Char)
    (lines : List (List Char)) :
    writeLines delim closed (l :: l' :: lines) =
      l ++ delim :: writeLines delim closed (l' :: lines) := by
  cases closed with
  | true => simp [writeLines]
  | false => simp [writeLines, List.intercalate]

/-- **Lines are read back**, provided that an unclosed last line is not empty. -/
theorem getlines_writeLines {delim : Char} {closed : Bool} :
    ∀ {lines : List (List Char)}, (∀ l ∈ lines, delim ∉ l) →
      (closed = true ∨ ∀ l ∈ lines.getLast?, l ≠ []) →
      getlines delim (ofText (writeLines delim closed lines)) = lines := by
  intro lines
  induction lines with
  | nil =>
    intro _ _
    cases closed <;> exact getlines_empty delim
  | cons l lines ih =>
    intro hdelim hlast
    have hl : delim ∉ l := hdelim l (List.mem_cons_self ..)
    cases lines with
    | nil =>
      cases closed with
      | true =>
        have htext : writeLines delim true [l] = l ++ delim :: [] := by simp [writeLines]
        rw [htext, getlines_append hl, getlines_empty]
      | false =>
        have hne : l ≠ [] := hlast.resolve_left (by decide) l (by simp)
        have htext : writeLines delim false [l] = l := by simp [writeLines, List.intercalate]
        rw [htext, getlines_last hl hne]
    | cons l' lines =>
      rw [writeLines_cons_cons, getlines_append hl]
      rw [ih (fun m hm => hdelim m (List.mem_cons_of_mem _ hm)) (by simpa using hlast)]

/-- Induction over the lines of a text: it is empty, or a last line without delimiter, or starts
with a line and its delimiter. -/
@[elab_as_elim]
theorem lines_induction {motive : List Char → Prop} (delim : Char) (nil : motive [])
    (last : ∀ l, delim ∉ l → l ≠ [] → motive l)
    (line : ∀ l rest, delim ∉ l → motive rest → motive (l ++ delim :: rest))
    (text : List Char) : motive text := by
  by_cases hmem : delim ∈ text
  · obtain ⟨l, rest, htext, hl⟩ := List.eq_append_cons_of_mem hmem
    have hlt : rest.length < text.length := by
      rw [htext, List.length_append, List.length_cons]
      omega
    rw [htext]
    exact line l rest hl (lines_induction delim nil last line rest)
  · by_cases hne : text = []
    · rw [hne]
      exact nil
    · exact last text hmem hne
termination_by text.length

theorem not_mem_of_mem_getlines {delim : Char} {text l : List Char}
    (h : l ∈ getlines delim (ofText text)) : delim ∉ l := by
  induction text using lines_induction delim with
  | nil =>
    rw [getlines_empty] at h
    cases h
  | last m hm hne =>
    rw [getlines_last hm hne] at h
    rwa [List.mem_singleton.mp h]
  | line m rest hm ih =>
    rw [getlines_append hm] at h
    rcases List.mem_cons.mp h with rfl | h
    · exact hm
    · exact ih h

/-- The text with the delimiter after its last line. -/
def terminated (delim : Char) (text : List Char) : List Char :=
  if text = [] ∨ text.getLast? = some delim then text else text ++ [delim]

theorem terminated_append (delim : Char) (l rest : List Char) :
    terminated delim (l ++ delim :: rest) = l ++ delim :: terminated delim rest := by
  cases rest with
  | nil =>
    rw [terminated, terminated, if_pos (.inr (by simp)), if_pos (.inl rfl)]
  | cons c rest =>
    have hiff : (l ++ delim :: c :: rest = [] ∨ (l ++ delim :: c :: rest).getLast? = some delim) ↔
        (c :: rest = [] ∨ (c :: rest).getLast? = some delim) := by
      rw [List.getLast?_append_of_ne_nil _ (by simp), List.getLast?_cons_cons]
      simp
    rw [terminated, terminated]
    by_cases h : c :: rest = [] ∨ (c :: rest).getLast? = some delim
    · rw [if_pos h, if_pos (hiff.mpr h)]
    · rw [if_neg h, if_neg fun h' => h (hiff.mp h'), List.append_assoc]
      rfl

/-- **A text is read back as well**, with its last line closed. -/
theorem writeLines_getlines (delim : Char) (text : List Char) :
    writeLines delim true (getlines delim (ofText text)) = terminated delim text := by
  induction text using lines_induction delim with
  | nil =>
    rw [getlines_empty]
    rfl
  | last l hl hne =>
    have hopen : ¬ (l = [] ∨ l.getLast? = some delim) := by
      rintro (h | h)
      · exact hne h
      · exact hl (List.mem_of_getLast? h)
    rw [getlines_last hl hne, terminated, if_neg hopen]
    simp [writeLines]
  | line l rest hl ih =>
    rw [writeLines, if_pos rfl] at ih
    rw [getlines_append hl, writeLines, if_pos rfl, List.flatMap_cons, ih, terminated_append,
      List.append_assoc, List.singleton_append]

/-! ## Fields of a line -/

/-- The stream stands in front of these fields of a line; past the last one it has seen the
end of the text. -/
def AtFields (sep : Char) : List (List Char) → IStream → Prop
  | [], s => s.rest = [] ∧ s.eof = true
  | f :: fs, s => s = ofText ([sep].intercalate (f :: fs))

/-- **One call takes one field.** -/
theorem AtFields.getline {sep : Char} {f : List Char} {fs : List (List Char)} {s : IStream}
    (h : AtFields sep (f :: fs) s) (hf : sep ∉ f) (str : List Char) :
    (getline sep str s).1 = f ∧ AtFields sep fs (getline sep str s).2 := by
  rw [AtFields] at h
  subst h
  cases fs with
  | nil =>
    have htext : [sep].intercalate [f] = f := by simp [List.intercalate]
    rw [htext, getline_last hf]
    exact ⟨rfl, rfl, rfl⟩
  | cons g fs =>
    have htext : [sep].intercalate (f :: g :: fs) = f ++ sep :: [sep].intercalate (g :: fs) := by
      simp [List.intercalate]
    rw [htext, getline_append hf]
    exact ⟨rfl, rfl⟩

theorem not_mem_intercalate {sep c : Char} (hsep : c ≠ sep) {fs : List (List Char)}
    (hfs : ∀ f ∈ fs, c ∉ f) : c ∉ [sep].intercalate fs := by
  induction fs with
  | nil => simp
  | cons f fs ih =>
    have hf : c ∉ f := hfs f (List.mem_cons_self ..)
    have hrest := ih fun g hg => hfs g (List.mem_cons_of_mem _ hg)
    cases fs with
    | nil =>
      rw [List.intercalate_singleton]
      exact hf
    | cons g fs =>
      rw [List.intercalate_cons_cons]
      simp only [List.mem_append, List.mem_singleton, not_or]
      exact ⟨⟨hf, hsep⟩, hrest⟩

/-! ## Words -/

/-- The white space of the classic locale. -/
def whiteSpace : List Char := [' ', '\t', '\n', '\x0b', '\x0c', '\r']

/-- `std::isspace`. -/
def isSpace (c : Char) : Bool := decide (c ∈ whiteSpace)

theorem isSpace_eq_false {p : Char → Bool} (hp : whiteSpace.any p = false) {c : Char}
    (hc : p c = true) : isSpace c = false :=
  decide_eq_false fun hmem => List.any_eq_false.mp hp c hmem hc

/-- `stream >> string` on a stream over this text and an empty string: white space is skipped,
then everything up to the next white space is taken. -/
def word (text : List Char) : List Char :=
  (text.dropWhile isSpace).takeWhile fun c => !isSpace c

/-- **A text is one word** if it has no white space; otherwise something is missing. -/
theorem word_eq_self_iff {text : List Char} : word text = text ↔ ∀ c ∈ text, isSpace c = false := by
  constructor
  · intro h c hc
    rw [← h, word] at hc
    simpa using List.mem_takeWhile_imp hc
  · intro h
    have hdrop : text.dropWhile isSpace = text := by
      rw [List.dropWhile_eq_self_iff]
      intro hl
      simp [h _ (List.getElem_mem hl)]
    rw [word, hdrop, List.takeWhile_eq_self_iff]
    intro c hc
    simp [h c hc]

/-! ## Integers -/

/-- The value of the decimal digits at the start of a text, `none` if there are none. -/
def digits (text : List Char) : Option ℕ :=
  if text.takeWhile Char.isDigit = [] then none
  else some (Nat.ofDigitChars 10 (text.takeWhile Char.isDigit) 0)

/-- The integer at the start of a text: white space, an optional sign and decimal digits.
`none` if no digit follows. What comes behind the digits is not looked at. -/
def scanInt (text : List Char) : Option ℤ :=
  match text.dropWhile isSpace with
  | '-' :: cs => (digits cs).map fun n => -(n : ℤ)
  | '+' :: cs => (digits cs).map Int.ofNat
  | cs => (digits cs).map Int.ofNat

/-- `std::to_string` of an integer, which is also how it is printed. -/
def decimal : ℤ → List Char
  | .ofNat n => Nat.toDigits 10 n
  | .negSucc n => '-' :: Nat.toDigits 10 (n + 1)

theorem isDigit_of_mem_toDigits {n : ℕ} {c : Char} (h : c ∈ Nat.toDigits 10 n) :
    c.isDigit = true :=
  Nat.isDigit_of_mem_toDigits (by decide) (by decide) h

theorem isSpace_of_isDigit {c : Char} (h : c.isDigit = true) : isSpace c = false :=
  isSpace_eq_false (by decide) h

/-- The digits end where the text goes on with something else. -/
theorem takeWhile_isDigit_append {ds rest : List Char} (hds : ∀ c ∈ ds, c.isDigit = true)
    (hrest : ∀ c ∈ rest.head?, c.isDigit = false) :
    (ds ++ rest).takeWhile Char.isDigit = ds := by
  rw [List.takeWhile_append_of_pos hds]
  cases rest with
  | nil => simp
  | cons c rest => rw [List.takeWhile_cons_of_neg (by simp [hrest c rfl]), List.append_nil]

theorem digits_append {ds rest : List Char} (hne : ds ≠ []) (hds : ∀ c ∈ ds, c.isDigit = true)
    (hrest : ∀ c ∈ rest.head?, c.isDigit = false) :
    digits (ds ++ rest) = some (Nat.ofDigitChars 10 ds 0) := by
  rw [digits, takeWhile_isDigit_append hds hrest, if_neg hne]

/-- A text that starts with a digit has no white space and no sign to skip. -/
theorem scanInt_of_digit {text : List Char} (h : ∃ c ∈ text.head?, c.isDigit = true) :
    scanInt text = (digits text).map Int.ofNat := by
  obtain ⟨c, hc, hdigit⟩ := h
  cases text with
  | nil => cases hc
  | cons d cs =>
    obtain rfl : d = c := by simpa using hc
    have hdrop : (d :: cs).dropWhile isSpace = d :: cs :=
      List.dropWhile_cons_of_neg (by simp [isSpace_of_isDigit hdigit])
    rw [scanInt, hdrop]
    split
    · next heq =>
      cases heq
      exact absurd hdigit (by decide)
    · next heq =>
      cases heq
      exact absurd hdigit (by decide)
    · rfl

/-- A text that starts with something else has no number. -/
theorem scanInt_eq_none {c : Char} (cs : List Char) (hspace : isSpace c = false)
    (hminus : c ≠ '-') (hplus : c ≠ '+') (hdigit : c.isDigit = false) :
    scanInt (c :: cs) = none := by
  have hdrop : (c :: cs).dropWhile isSpace = c :: cs :=
    List.dropWhile_cons_of_neg (by simp [hspace])
  have htake : (c :: cs).takeWhile Char.isDigit = [] :=
    List.takeWhile_cons_of_neg (by simp [hdigit])
  rw [scanInt, hdrop]
  split
  · next heq => exact absurd (List.cons.inj heq).1 hminus
  · next heq => exact absurd (List.cons.inj heq).1 hplus
  · rw [digits, if_pos htake]
    rfl

theorem head?_toDigits_append (n : ℕ) (rest : List Char) :
    ∃ c ∈ (Nat.toDigits 10 n ++ rest).head?, c.isDigit = true := by
  obtain ⟨c, cs, hcs⟩ := List.exists_cons_of_ne_nil (Nat.toDigits_ne_nil (b := 10) (n := n))
  refine ⟨c, by simp [hcs], isDigit_of_mem_toDigits (n := n) ?_⟩
  rw [hcs]
  exact List.mem_cons_self ..

/-- **An integer is read back**, whatever follows it that is not a digit. -/
theorem scanInt_decimal_append (n : ℤ) {rest : List Char}
    (hrest : ∀ c ∈ rest.head?, c.isDigit = false) : scanInt (decimal n ++ rest) = some n := by
  have hdigits : ∀ m : ℕ, digits (Nat.toDigits 10 m ++ rest) = some m := by
    intro m
    rw [digits_append Nat.toDigits_ne_nil (fun _ hc => isDigit_of_mem_toDigits hc) hrest,
      Nat.ofDigitChars_ten_toDigits]
  cases n with
  | ofNat m =>
    rw [decimal, scanInt_of_digit (head?_toDigits_append m rest), hdigits]
    rfl
  | negSucc m =>
    have hdrop : ('-' :: (Nat.toDigits 10 (m + 1) ++ rest)).dropWhile isSpace =
        '-' :: (Nat.toDigits 10 (m + 1) ++ rest) :=
      List.dropWhile_cons_of_neg (by decide)
    rw [decimal, List.cons_append, scanInt, hdrop]
    simp only [hdigits]
    rfl

theorem decimal_ne_nil (n : ℤ) : decimal n ≠ [] := by
  cases n with
  | ofNat m => exact Nat.toDigits_ne_nil
  | negSucc m => exact List.cons_ne_nil _ _

/-- The characters of an integer are digits, after a possible minus sign. -/
theorem isDigit_or_eq_of_mem_decimal {n : ℤ} {c : Char} (h : c ∈ decimal n) :
    c.isDigit = true ∨ c = '-' := by
  cases n with
  | ofNat m => exact .inl (isDigit_of_mem_toDigits h)
  | negSucc m =>
    rcases List.mem_cons.mp h with rfl | h
    · exact .inr rfl
    · exact .inl (isDigit_of_mem_toDigits h)

/-- The least and the greatest value of the type `int`. -/
def intMin : ℤ := -2147483648

@[inherit_doc intMin]
def intMax : ℤ := 2147483647

/-- `stream >> i` on a stream over this text, for an `int`. A text of white space leaves `i` as
it is, here `none` for a variable without a value; without a number the result is zero, and a
number outside the type becomes the nearest one inside. -/
def extractInt (text : List Char) : Option ℤ :=
  if text.all isSpace then none else some (max intMin (min intMax ((scanInt text).getD 0)))

theorem extractInt_decimal {n : ℤ} (hlo : intMin ≤ n) (hhi : n ≤ intMax) :
    extractInt (decimal n) = some n := by
  have hall : ¬ (decimal n).all isSpace = true := by
    obtain ⟨c, cs, hcs⟩ := List.exists_cons_of_ne_nil (decimal_ne_nil n)
    have hmem : c ∈ decimal n := hcs ▸ List.mem_cons_self ..
    intro hall
    have hspace : isSpace c = true := List.all_eq_true.mp hall c hmem
    rcases isDigit_or_eq_of_mem_decimal hmem with hdigit | rfl
    · rw [isSpace_of_isDigit hdigit] at hspace
      cases hspace
    · exact absurd hspace (by decide)
  have hscan : scanInt (decimal n) = some n := by
    have hend : ∀ c ∈ ([] : List Char).head?, c.isDigit = false := by simp
    have hnil := scanInt_decimal_append n hend
    rwa [List.append_nil] at hnil
  rw [extractInt, if_neg hall, hscan, Option.getD_some, min_eq_right hhi, max_eq_right hlo]

/-- What `std::stoi` throws. -/
inductive StoiError where
  | invalidArgument
  | outOfRange
  deriving DecidableEq, Repr

/-- `std::stoi`. -/
def stoi (text : List Char) : Except StoiError ℤ :=
  match scanInt text with
  | none => .error .invalidArgument
  | some n => if intMin ≤ n ∧ n ≤ intMax then .ok n else .error .outOfRange

/-- The least and the greatest value of the type `long`, of 64 bits. -/
def longMin : ℤ := -9223372036854775808

@[inherit_doc longMin]
def longMax : ℤ := 9223372036854775807

/-- `std::stol`, which throws as `std::stoi` does. -/
def stol (text : List Char) : Except StoiError ℤ :=
  match scanInt text with
  | none => .error .invalidArgument
  | some n => if longMin ≤ n ∧ n ≤ longMax then .ok n else .error .outOfRange

theorem stol_decimal {n : ℤ} (hlo : longMin ≤ n) (hhi : n ≤ longMax) :
    stol (decimal n) = .ok n := by
  have hend : ∀ c ∈ ([] : List Char).head?, c.isDigit = false := by simp
  have hscan := scanInt_decimal_append n hend
  rw [List.append_nil] at hscan
  rw [stol, hscan]
  exact if_pos ⟨hlo, hhi⟩

theorem isDigit_toNat {c : Char} (h : c.isDigit = true) : 48 ≤ c.toNat ∧ c.toNat ≤ 57 :=
  Char.isDigit_iff_toNat.mp h

theorem ofDigitChars_lt {ds : List Char} (hds : ∀ c ∈ ds, c.isDigit = true) :
    Nat.ofDigitChars 10 ds 0 < 10 ^ ds.length := by
  induction ds with
  | nil => decide
  | cons c ds ih =>
    have hc := isDigit_toNat (hds c (List.mem_cons_self ..))
    have hlt := ih fun d hd => hds d (List.mem_cons_of_mem _ hd)
    have hdigit : 10 * 0 + (c.toNat - '0'.toNat) ≤ 9 := by
      have hzero : '0'.toNat = 48 := rfl
      omega
    rw [Nat.ofDigitChars_cons, Nat.ofDigitChars_eq_ofDigitChars_zero, List.length_cons,
      Nat.pow_succ]
    have hmul := Nat.mul_le_mul_left (10 ^ ds.length) hdigit
    omega

/-- `std::stoi` of some digits, whatever follows them that is not a digit. -/
theorem stoi_digits {ds rest : List Char} (hne : ds ≠ []) (hds : ∀ c ∈ ds, c.isDigit = true)
    (hrest : ∀ c ∈ rest.head?, c.isDigit = false) :
    stoi (ds ++ rest) = if ((Nat.ofDigitChars 10 ds 0 : ℕ) : ℤ) ≤ intMax then
      .ok (Nat.ofDigitChars 10 ds 0 : ℕ) else .error .outOfRange := by
  obtain ⟨c, cs, rfl⟩ := List.exists_cons_of_ne_nil hne
  have hscan : scanInt (c :: cs ++ rest) = some ((Nat.ofDigitChars 10 (c :: cs) 0 : ℕ) : ℤ) := by
    rw [scanInt_of_digit ⟨c, by simp, hds c (List.mem_cons_self ..)⟩, digits_append hne hds hrest]
    rfl
  have hmin : intMin ≤ ((Nat.ofDigitChars 10 (c :: cs) 0 : ℕ) : ℤ) := by
    rw [intMin]
    omega
  rw [stoi, hscan]
  simp only [hmin, true_and]

/-- A number of at most nine digits is an `int`. -/
theorem stoi_append {ds rest : List Char} (hne : ds ≠ []) (hds : ∀ c ∈ ds, c.isDigit = true)
    (hlen : ds.length ≤ 9) (hrest : ∀ c ∈ rest.head?, c.isDigit = false) :
    stoi (ds ++ rest) = .ok (Nat.ofDigitChars 10 ds 0 : ℕ) := by
  have hlt : Nat.ofDigitChars 10 ds 0 < 10 ^ 9 :=
    Nat.lt_of_lt_of_le (ofDigitChars_lt hds) (Nat.pow_le_pow_right (by decide) hlen)
  have hmax : ((Nat.ofDigitChars 10 ds 0 : ℕ) : ℤ) ≤ intMax := by
    rw [intMax]
    omega
  rw [stoi_digits hne hds hrest, if_pos hmax]

/-- Digit strings of one length are told apart by their value. -/
theorem ofDigitChars_inj :
    ∀ {ds ds' : List Char} {a a' : ℕ}, (∀ c ∈ ds, c.isDigit = true) →
      (∀ c ∈ ds', c.isDigit = true) → ds.length = ds'.length →
      Nat.ofDigitChars 10 ds a = Nat.ofDigitChars 10 ds' a' → a = a' ∧ ds = ds' := by
  intro ds
  induction ds with
  | nil =>
    intro ds' a a' _ _ hlen h
    obtain rfl : ds' = [] := List.length_eq_zero_iff.mp hlen.symm
    exact ⟨by simpa using h, rfl⟩
  | cons c ds ih =>
    intro ds' a a' hds hds' hlen h
    cases ds' with
    | nil => cases hlen
    | cons c' ds' =>
      rw [Nat.ofDigitChars_cons, Nat.ofDigitChars_cons] at h
      obtain ⟨ha, rfl⟩ := ih (fun d hd => hds d (List.mem_cons_of_mem _ hd))
        (fun d hd => hds' d (List.mem_cons_of_mem _ hd)) (Nat.succ.inj hlen) h
      have hc := isDigit_toNat (hds c (List.mem_cons_self ..))
      have hc' := isDigit_toNat (hds' c' (List.mem_cons_self ..))
      have hzero : '0'.toNat = 48 := rfl
      rw [hzero] at ha
      obtain ⟨heq, hcc⟩ : a = a' ∧ c.toNat = c'.toNat := by omega
      exact ⟨heq, by rw [Char.toNat_inj.mp hcc]⟩

/-! ## Searching -/

/-- `text.find(pat)`: where the first occurrence starts, `none` for `npos`. -/
def find (pat : List Char) : List Char → Option ℕ
  | [] => if pat = [] then some 0 else none
  | c :: cs => if pat <+: c :: cs then some 0 else (find pat cs).map (· + 1)

/-- The search fails if and only if the text does not have the pattern in it. -/
theorem find_eq_none_iff {pat text : List Char} : find pat text = none ↔ ¬ pat <:+: text := by
  induction text with
  | nil =>
    rw [find, List.infix_nil]
    split <;> simp_all
  | cons c cs ih =>
    rw [find, List.infix_cons_iff, not_or]
    split
    · next hpre => simp [hpre]
    · next hpre => simp [hpre, ih]

theorem find_eq_none_of_notMem {pat text : List Char} {c : Char} (hpat : c ∈ pat)
    (htext : c ∉ text) : find pat text = none :=
  find_eq_none_iff.mpr fun h => htext (h.subset hpat)

/-- The first occurrence is the one behind a part that lacks the pattern's first character. -/
theorem find_append {c : Char} {pat past rest : List Char} (h : c ∉ past) :
    find (c :: pat) (past ++ c :: pat ++ rest) = some past.length := by
  induction past with
  | nil =>
    have hpre : c :: pat <+: c :: (pat ++ rest) := List.prefix_append (c :: pat) rest
    rw [List.nil_append, List.cons_append, find, if_pos hpre]
    rfl
  | cons d past ih =>
    have hd : c ≠ d := fun hcd => h (hcd ▸ List.mem_cons_self ..)
    have hpast : c ∉ past := fun hmem => h (List.mem_cons_of_mem _ hmem)
    have hpre : ¬ c :: pat <+: d :: (past ++ c :: pat ++ rest) := by
      rw [List.cons_prefix_cons]
      exact fun hcd => hd hcd.1
    rw [List.cons_append, List.cons_append, find, if_neg hpre, ih hpast]
    rfl

end TextStream
