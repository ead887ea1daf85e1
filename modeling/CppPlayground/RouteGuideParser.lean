import CppPlayground.TextStream

/-!
# The feature database of the route guide

`ParseDb` (`route_guide/helper.cpp` of the gRPC example) reads the features of the route guide from
a text in the form of JSON. All white space is removed first; then a `Parser` goes through what
is left with one index, `current_`, that every comparison moves on, also one that fails.

* `Parser.At` — the parser stands in front of a text; the comparisons, the numbers and the name
  are then read off the front of that text (`matchAll_append`, `readLong_append`,
  `readName_append`).
* `Entries` — the texts that are accepted, with the features they stand for. A name has lost its
  white space, and the end of the list is less strict than JSON: the bracket may have any
  character in front of it, and the list may also just stop behind a comma.
* `Ends` — what a call of the parser can come to: an exception of `std::stol`, a failure, or a
  feature read from an accepted text. It has one rule for each part of `TryParseOne`.

No index of the parser leaves the text: `current_` may be moved behind its end only by the
comparison that fails, and the parser then stops.
-/

namespace CppPlayground

namespace RouteGuide

open TextStream

/-! ## Messages -/

/-- `Point`, with `int32` coordinates. -/
structure Point where
  latitude : ℤ
  longitude : ℤ
  deriving DecidableEq, Repr

/-- `Feature`. -/
structure Feature where
  name : List Char
  location : Point
  deriving DecidableEq, Repr

/-- `Feature()`. -/
def Feature.new : Feature := ⟨[], ⟨0, 0⟩⟩

/-- A `long` that is stored into a field of type `int32`. -/
def toInt32 (n : ℤ) : ℤ := n.bmod 4294967296

def Feature.setLatitude (feature : Feature) (n : ℤ) : Feature :=
  { feature with location := { feature.location with latitude := toInt32 n } }

def Feature.setLongitude (feature : Feature) (n : ℤ) : Feature :=
  { feature with location := { feature.location with longitude := toInt32 n } }

def Feature.setName (feature : Feature) (name : List Char) : Feature :=
  { feature with name := name }

/-! ## The parser -/

/-- What can go wrong besides a failure of the parser. -/
inductive Error
  /-- `substr` throws `std::out_of_range` -/
  | outOfRange
  /-- an index behind the terminator of the text -/
  | undefined
  /-- `std::stol` throws -/
  | stol (e : StoiError)
  deriving DecidableEq, Repr

/-- `text.substr(pos, count)`. -/
def substr (text : List Char) (pos count : ℕ) : Except Error (List Char) :=
  if pos ≤ text.length then .ok ((text.drop pos).take count) else .error .outOfRange

/-- `text[pos]`, where the text is followed by a terminator. -/
def charAt (text : List Char) (pos : ℕ) : Except Error Char :=
  if pos ≤ text.length then .ok (text[pos]?.getD '\x00') else .error .undefined

/-- `text.erase(std::remove_if(text.begin(), text.end(), isspace), text.end())`. -/
def removeSpaces (text : List Char) : List Char := text.filter fun c => !isSpace c

/-- `Parser`, with its three variable members. -/
structure Parser where
  failed : Bool
  db : List Char
  current : ℕ
  deriving DecidableEq, Repr

/-- `location_`. -/
def location : List Char := "\"location\":".toList

/-- `latitude_`. -/
def latitude : List Char := "\"latitude\":".toList

/-- `longitude_`. -/
def longitude : List Char := "\"longitude\":".toList

/-- `name_`. -/
def name : List Char := "\"name\":".toList

/-- What `TryParseOne` returns, the feature it has written to and the parser behind it. -/
structure Outcome where
  result : Bool
  feature : Feature
  parser : Parser
  deriving DecidableEq, Repr

namespace Parser

/-- `Finished`. -/
def finished (p : Parser) : Bool := decide (p.db.length ≤ p.current)

/-- `SetFailedAndReturnFalse`. -/
def setFailedAndReturnFalse (p : Parser) (feature : Feature) : Outcome :=
  ⟨false, feature, { p with failed := true }⟩

def advance (p : Parser) (n : ℕ) : Parser := { p with current := p.current + n }

/-- `Match`. -/
def matchPrefix (p : Parser) (word : List Char) : Except Error (Bool × Parser) := do
  let part ← substr p.db p.current word.length
  .ok (decide (part = word), p.advance word.length)

/-- `Match(a) && Match(b) && …`. -/
def matchAll (p : Parser) : List (List Char) → Except Error (Bool × Parser)
  | [] => .ok (true, p)
  | word :: words => do
    let r ← p.matchPrefix word
    if r.1 then r.2.matchAll words else .ok (false, r.2)

/-- `if (!Match(a) || !Match(b) || …) return SetFailedAndReturnFalse();` and what follows. -/
def expect (p : Parser) (words : List (List Char)) (feature : Feature)
    (next : Parser → Except Error Outcome) : Except Error Outcome := do
  let r ← p.matchAll words
  if r.1 then next r.2 else .ok (r.2.setFailedAndReturnFalse feature)

/-- How many characters a loop passes that goes on while `current_` is not at the end and the
character there meets the condition. -/
def passes (p : Parser) (goOn : Char → Bool) : Except Error ℕ :=
  if p.current ≤ p.db.length then .ok ((p.db.drop p.current).takeWhile goOn).length
  else .error .undefined

/-- The condition in the loop of `ReadLong`. -/
def inNumber (c : Char) : Bool := c ≠ ',' && c ≠ '}'

/-- `ReadLong`. -/
def readLong (p : Parser) : Except Error (ℤ × Parser) := do
  let n ← p.passes inNumber
  let digits ← substr p.db p.current n
  match stol digits with
  | .ok l => .ok (l, p.advance n)
  | .error e => .error (.stol e)

/-- `TryParseOne` from `name_start` on. -/
def readName (p : Parser) (feature : Feature) : Except Error Outcome := do
  let n ← p.passes fun c => c ≠ '"'
  -- the loop takes the quote as well, if there is one
  let q := p.advance (if p.current + n = p.db.length then n else n + 1)
  if q.current = q.db.length then .ok (q.setFailedAndReturnFalse feature)
  else
    let name ← substr q.db p.current (q.current - p.current - 1)
    let feature := feature.setName name
    let r ← q.matchPrefix "\x7d,".toList
    if r.1 then .ok ⟨true, feature, r.2⟩
    else
      let c ← charAt r.2.db (r.2.current - 1)
      if c = ']' && r.2.current = r.2.db.length then .ok ⟨true, feature, r.2⟩
      else .ok (r.2.setFailedAndReturnFalse feature)

/-- `TryParseOne` once it has tested that there is something to read. -/
def parseEntry (p : Parser) (feature : Feature) : Except Error Outcome :=
  p.expect ["\x7b".toList] feature fun p =>
  p.expect [location, "\x7b".toList, latitude] feature fun p => do
  let r ← p.readLong
  let feature := feature.setLatitude r.1
  r.2.expect [",".toList, longitude] feature fun p => do
  let r ← p.readLong
  let feature := feature.setLongitude r.1
  r.2.expect ["\x7d,".toList, name, "\"".toList] feature fun p => p.readName feature

/-- `TryParseOne`. -/
def tryParseOne (p : Parser) (feature : Feature) : Except Error Outcome :=
  if p.failed || p.finished then .ok (p.setFailedAndReturnFalse feature)
  else p.parseEntry feature

/-- The constructor. -/
def new (db : List Char) : Except Error Parser := do
  let r ← Parser.matchPrefix ⟨false, removeSpaces db, 0⟩ "[".toList
  .ok (if r.1 then r.2 else { r.2 with failed := true })

end Parser

/-! ## In front of a text -/

namespace Parser

variable {p q : Parser} {text rest w : List Char} {words : List (List Char)}

/-- The parser stands in front of this text. -/
structure At (p : Parser) (text : List Char) : Prop where
  bound : p.current ≤ p.db.length
  rest : p.db.drop p.current = text

theorem at_drop (h : p.current ≤ p.db.length) : p.At (p.db.drop p.current) := ⟨h, rfl⟩

theorem At.length (h : p.At text) : p.current + text.length = p.db.length := by
  rw [← h.rest, List.length_drop]
  have := h.bound
  omega

theorem At.advance (h : p.At (w ++ rest)) : (p.advance w.length).At rest where
  bound := by
    have hlen := h.length
    rw [List.length_append] at hlen
    simp only [Parser.advance]
    omega
  rest := by
    have hdrop := congrArg (List.drop w.length) h.rest
    rwa [List.drop_drop, List.drop_left] at hdrop

theorem At.finished_iff (h : p.At text) : p.finished = true ↔ text = [] := by
  have hlen := h.length
  rw [finished, decide_eq_true_iff, ← List.length_eq_zero_iff]
  omega

theorem substr_at (h : p.At text) (n : ℕ) : substr p.db p.current n = .ok (text.take n) := by
  rw [substr, if_pos h.bound, h.rest]

theorem matchPrefix_at (h : p.At text) (w : List Char) :
    p.matchPrefix w = .ok (decide (w <+: text), p.advance w.length) := by
  rw [matchPrefix, substr_at h]
  simp only [List.prefix_iff_eq_take, eq_comm (a := w)]
  rfl

theorem matchAll_append (h : p.At (words.flatten ++ rest)) :
    p.matchAll words = .ok (true, p.advance words.flatten.length) := by
  induction words generalizing p with
  | nil => rfl
  | cons w words ih =>
    rw [List.flatten_cons, List.append_assoc] at h
    have hpre : w <+: w ++ (words.flatten ++ rest) := List.prefix_append ..
    rw [matchAll, matchPrefix_at h, decide_eq_true hpre]
    refine (ih h.advance).trans ?_
    rw [List.flatten_cons, List.length_append, Parser.advance, Parser.advance, Parser.advance,
      Nat.add_assoc]

theorem matchAll_of_not_prefix (h : p.At text) (hnot : ¬ words.flatten <+: text) :
    ∃ q, p.matchAll words = .ok (false, q) := by
  induction words generalizing p text with
  | nil => exact absurd (List.nil_prefix) hnot
  | cons w words ih =>
    rw [matchAll, matchPrefix_at h]
    by_cases hw : w <+: text
    · obtain ⟨rest, rfl⟩ := hw
      rw [List.flatten_cons, List.prefix_append_right_inj] at hnot
      rw [decide_eq_true (List.prefix_append ..)]
      exact ih h.advance hnot
    · rw [decide_eq_false hw]
      exact ⟨_, rfl⟩

theorem expect_append {feature : Feature} {next : Parser → Except Error Outcome}
    (h : p.At (words.flatten ++ rest)) :
    p.expect words feature next = next (p.advance words.flatten.length) := by
  rw [expect, matchAll_append h]
  rfl

theorem passes_at (h : p.At text) (goOn : Char → Bool) :
    p.passes goOn = .ok (text.takeWhile goOn).length := by
  rw [passes, if_pos h.bound, h.rest]

theorem ok_bind {α β : Type} (a : α) (f : α → Except Error β) : (Except.ok a >>= f) = f a := rfl

@[simp] theorem advance_advance (m n : ℕ) : (p.advance m).advance n = p.advance (m + n) := by
  rw [Parser.advance, Parser.advance, Parser.advance, Nat.add_assoc]

theorem readLong_at (h : p.At text) :
    p.readLong =
      match stol (text.takeWhile inNumber) with
      | .ok l => .ok (l, p.advance (text.takeWhile inNumber).length)
      | .error e => .error (.stol e) := by
  have htake := List.prefix_iff_eq_take.mp (List.takeWhile_prefix inNumber (l := text))
  rw [readLong, passes_at h]
  change (substr p.db p.current _ >>= _) = _
  rw [substr_at h, ← htake]
  rfl

/-- A number ends at a comma or a brace. -/
theorem readLong_append {a : List Char} {l : ℤ} (h : p.At (a ++ rest))
    (ha : ∀ c ∈ a, inNumber c = true) (hrest : ∀ c ∈ rest.head?, inNumber c = false)
    (hl : stol a = .ok l) : p.readLong = .ok (l, p.advance a.length) := by
  have htake : (a ++ rest).takeWhile inNumber = a := by
    rw [List.takeWhile_append_of_pos ha]
    cases rest with
    | nil => simp
    | cons c rest => rw [List.takeWhile_cons_of_neg (by simp [hrest c rfl]), List.append_nil]
  rw [readLong_at h, htake, hl]

end Parser

/-! ## What is accepted -/

/-- What stands in front of the latitude, -/
def beforeLatitude : List Char :=
  ["\x7b".toList].flatten ++ [location, "\x7b".toList, latitude].flatten

/-- of the longitude -/
def beforeLongitude : List Char := [",".toList, longitude].flatten

/-- and of the name. -/
def beforeName : List Char := ["\x7d,".toList, name, "\"".toList].flatten

/-- How an entry ends behind the quote of its name, and what is left behind it. -/
inductive Ending : List Char → List Char → Prop
  | more (rest : List Char) : Ending ('}' :: ',' :: rest) rest
  | last (c : Char) : Ending [c, ']'] []

/-- A text that starts with an entry for this feature, and what is left behind it. -/
inductive Entry : List Char → Feature → List Char → Prop
  | mk {a b n tail rest : List Char} {lat lon : ℤ}
      (ha : ∀ c ∈ a, Parser.inNumber c = true) (hlat : stol a = .ok lat)
      (hb : ∀ c ∈ b, Parser.inNumber c = true) (hlon : stol b = .ok lon)
      (hn : '"' ∉ n) (hend : Ending tail rest) :
      Entry (beforeLatitude ++ (a ++ (beforeLongitude ++ (b ++ (beforeName ++
        (n ++ '"' :: tail)))))) ⟨n, ⟨toInt32 lat, toInt32 lon⟩⟩ rest

/-- A text of entries for these features. -/
inductive Entries : List Char → List Feature → Prop
  | nil : Entries [] []
  | cons {text rest : List Char} {f : Feature} {fs : List Feature} (h : Entry text f rest)
      (hrest : Entries rest fs) : Entries text (f :: fs)

theorem Ending.length {tail rest : List Char} (h : Ending tail rest) :
    tail.length = rest.length + 2 := by
  cases h <;> rfl

theorem Entry.length_lt {text rest : List Char} {f : Feature} (h : Entry text f rest) :
    rest.length < text.length := by
  cases h with
  | mk ha hlat hb hlon hn hend =>
    have hlen := hend.length
    simp only [List.length_append, List.length_cons]
    omega

/-! ## What a call can come to -/

/-- An exception of `std::stol`, a failure, or a feature with this property. -/
inductive Ends (P : Feature → Parser → Prop) : Except Error Outcome → Prop
  | threw (e : StoiError) : Ends P (.error (.stol e))
  | failed (f : Feature) (q : Parser) : Ends P (.ok ⟨false, f, q⟩)
  | parsed {f : Feature} {q : Parser} (h : P f q) : Ends P (.ok ⟨true, f, q⟩)

namespace Parser

variable {p q : Parser} {text rest : List Char} {words : List (List Char)}
  {P : Feature → Parser → Prop} {feature : Feature}

theorem ends_expect {next : Parser → Except Error Outcome} (h : p.At text)
    (hnext : ∀ rest, text = words.flatten ++ rest →
      Ends P (next (p.advance words.flatten.length))) :
    Ends P (p.expect words feature next) := by
  by_cases hpre : words.flatten <+: text
  · obtain ⟨rest, rfl⟩ := hpre
    rw [expect_append h]
    exact hnext rest rfl
  · obtain ⟨q, hq⟩ := matchAll_of_not_prefix h hpre
    rw [expect, hq]
    exact .failed ..

theorem ends_readLong {next : ℤ × Parser → Except Error Outcome} (h : p.At text)
    (hnext : ∀ a rest l, text = a ++ rest → (∀ c ∈ a, inNumber c = true) → stol a = .ok l →
      Ends P (next (l, p.advance a.length))) :
    Ends P (p.readLong >>= next) := by
  rw [readLong_at h]
  cases hl : stol (text.takeWhile inNumber) with
  | error e => exact .threw e
  | ok l =>
    refine hnext _ (text.dropWhile inNumber) l List.takeWhile_append_dropWhile.symm ?_ hl
    intro c hc
    exact List.mem_takeWhile_imp hc

/-- The end of an entry is looked at once the name and its quote have been passed. -/
theorem readName_append {n tail : List Char} (h : p.At (n ++ '"' :: tail)) (hn : '"' ∉ n) :
    p.readName feature =
      if tail = [] then .ok ((p.advance (n.length + 1)).setFailedAndReturnFalse feature)
      else
        (p.advance (n.length + 1)).matchPrefix "\x7d,".toList >>= fun r =>
          if r.1 then .ok ⟨true, feature.setName n, r.2⟩
          else
            charAt r.2.db (r.2.current - 1) >>= fun c =>
              if c = ']' && r.2.current = r.2.db.length then .ok ⟨true, feature.setName n, r.2⟩
              else .ok (r.2.setFailedAndReturnFalse (feature.setName n)) := by
  have hpass : (n ++ '"' :: tail).takeWhile (fun c => decide (c ≠ '"')) = n := by
    have hall : ∀ c ∈ n, decide (c ≠ '"') = true := by
      intro c hc
      exact decide_eq_true fun heq => hn (heq ▸ hc)
    rw [List.takeWhile_append_of_pos hall, List.takeWhile_cons_of_neg (by simp), List.append_nil]
  have hlen := h.length
  rw [List.length_append, List.length_cons] at hlen
  have hne : ¬ p.current + n.length = p.db.length := by omega
  have htail : (p.advance (n.length + 1)).current = (p.advance (n.length + 1)).db.length ↔
      tail = [] := by
    rw [← List.length_eq_zero_iff]
    simp only [Parser.advance]
    omega
  have hname : substr (p.advance (n.length + 1)).db p.current
      ((p.advance (n.length + 1)).current - p.current - 1) = .ok n := by
    have hcount : (p.advance (n.length + 1)).current - p.current - 1 = n.length := by
      simp only [Parser.advance]
      omega
    rw [hcount]
    exact (substr_at h n.length).trans (by rw [List.take_left])
  rw [readName, passes_at h, hpass]
  change (if (p.advance (if p.current + n.length = p.db.length then n.length
    else n.length + 1)).current = _ then _ else _) = _
  rw [if_neg hne]
  simp only [htail]
  split
  · rfl
  · rw [hname]
    rfl

theorem charAt_at (h : p.At text) {i : ℕ} (hi : i ≤ text.length) :
    charAt p.db (p.current + i) = .ok (text[i]?.getD '\x00') := by
  have hlen := h.length
  rw [charAt, if_pos (by omega), ← h.rest, List.getElem?_drop]

theorem At.behind_quote {n tail : List Char} (h : p.At (n ++ '"' :: tail)) :
    (p.advance (n.length + 1)).At tail := by
  rw [List.append_cons] at h
  have hadvance := h.advance
  rwa [List.length_append, List.length_singleton] at hadvance

/-- Two characters behind the name, of which the second is no comma after a brace. -/
theorem readName_other {n tail : List Char} {c d : Char} (h : p.At (n ++ '"' :: c :: d :: tail))
    (hn : '"' ∉ n) (hcd : ¬ (c = '}' ∧ d = ',')) :
    p.readName feature =
      if d = ']' ∧ tail = [] then .ok ⟨true, feature.setName n, p.advance (n.length + 3)⟩
      else .ok ((p.advance (n.length + 3)).setFailedAndReturnFalse (feature.setName n)) := by
  have hq := h.behind_quote
  have hpre : ¬ "\x7d,".toList <+: c :: d :: tail := by
    rintro ⟨rest, hrest⟩
    cases hrest
    exact hcd ⟨rfl, rfl⟩
  have hlen : p.current + (n.length + 3) = p.db.length ↔ tail = [] := by
    have := h.length
    simp only [List.length_append, List.length_cons] at this
    rw [← List.length_eq_zero_iff]
    omega
  have hchar : charAt p.db (p.current + (n.length + 3) - 1) = .ok d :=
    charAt_at hq (Nat.le_add_left 1 _)
  rw [readName_append h hn, if_neg (List.cons_ne_nil _ _), matchPrefix_at hq, decide_eq_false hpre]
  change (charAt p.db (p.current + (n.length + 3) - 1) >>= _) = _
  rw [hchar]
  simp only [← hlen]
  change (if (decide (d = ']') && decide (p.current + (n.length + 3) = p.db.length)) = true
    then _ else _) = _
  simp only [Bool.and_eq_true, decide_eq_true_eq]
  rfl

theorem readName_ending {n tail : List Char} (h : p.At (n ++ '"' :: tail)) (hn : '"' ∉ n)
    (hend : Ending tail rest) (feature : Feature) :
    p.readName feature = .ok ⟨true, feature.setName n, p.advance (n.length + 3)⟩ ∧
      (p.advance (n.length + 3)).At rest := by
  have hq := h.behind_quote
  have hrest : (p.advance (n.length + 3)).At rest := by
    cases hend with
    | more rest => exact At.advance (w := ['}', ',']) hq
    | last c => exact At.advance (w := [c, ']']) hq
  refine ⟨?_, hrest⟩
  cases hend with
  | more rest =>
    have hpre : "\x7d,".toList <+: '}' :: ',' :: rest := ⟨rest, rfl⟩
    rw [readName_append h hn, if_neg (List.cons_ne_nil _ _), matchPrefix_at hq,
      decide_eq_true hpre]
    rfl
  | last c =>
    rw [readName_other h hn (by simp), if_pos ⟨rfl, rfl⟩]

/-- **Rule for the name.** -/
theorem ends_readName (h : p.At text)
    (hnext : ∀ n tail rest, text = n ++ '"' :: tail → '"' ∉ n → Ending tail rest →
      (p.advance (n.length + 3)).At rest → P (feature.setName n) (p.advance (n.length + 3))) :
    Ends P (p.readName feature) := by
  by_cases hquote : '"' ∈ text
  · obtain ⟨n, tail, rfl, hn⟩ := List.eq_append_cons_of_mem hquote
    have hparsed : ∀ rest, Ending tail rest → Ends P (p.readName feature) := by
      intro rest hend
      obtain ⟨heq, hrest⟩ := readName_ending h hn hend feature
      rw [heq]
      exact .parsed (hnext n tail rest rfl hn hend hrest)
    -- how many characters follow the quote decides what can be read of the end
    match tail, h, hparsed with
    | [], h, _ =>
      rw [readName_append h hn, if_pos rfl]
      exact .failed ..
    | [c], h, _ =>
      have hpre : ¬ "\x7d,".toList <+: [c] := by
        intro hpre
        exact absurd hpre.length_le (by simp)
      have hchar := charAt_at h.behind_quote (i := 1) (by simp)
      rw [readName_append h hn, if_neg (List.cons_ne_nil _ _), matchPrefix_at h.behind_quote,
        decide_eq_false hpre]
      change Ends P (charAt p.db (p.current + (n.length + 1) + 1) >>= _)
      rw [show charAt p.db (p.current + (n.length + 1) + 1) = _ from hchar]
      exact .failed ..
    | c :: d :: tail, h, hparsed =>
      by_cases hcd : c = '}' ∧ d = ','
      · obtain ⟨rfl, rfl⟩ := hcd
        exact hparsed tail (.more tail)
      · by_cases hlast : d = ']' ∧ tail = []
        · obtain ⟨rfl, rfl⟩ := hlast
          exact hparsed [] (.last c)
        · rw [readName_other h hn hcd, if_neg hlast]
          exact .failed ..
  · -- without a quote the loop runs to the end of the text
    have hpass : text.takeWhile (fun c => decide (c ≠ '"')) = text := by
      rw [List.takeWhile_eq_self_iff]
      intro c hc
      exact decide_eq_true fun heq => hquote (heq ▸ hc)
    have hend : p.current + text.length = p.db.length := h.length
    rw [readName, passes_at h, hpass]
    change Ends P (if (p.advance (if p.current + text.length = p.db.length then text.length
      else text.length + 1)).current = _ then _ else _)
    rw [if_pos hend]
    change Ends P (if p.current + text.length = p.db.length then _ else _)
    rw [if_pos hend]
    exact .failed ..

/-! ## One entry -/

/-- The parser has gone on to this text. -/
structure Moved (p q : Parser) (rest : List Char) : Prop where
  db : q.db = p.db
  failed : q.failed = p.failed
  reached : q.At rest

theorem At.moved {k : ℕ} (h : (p.advance k).At rest) : Moved p (p.advance k) rest :=
  ⟨rfl, rfl, h⟩

theorem tryParseOne_eq (hfailed : p.failed = false) (h : p.At text) (hne : text ≠ []) :
    p.tryParseOne feature = p.parseEntry feature := by
  have hgo : ¬ (p.failed || p.finished) = true := by
    rw [hfailed, Bool.false_or, h.finished_iff]
    exact hne
  rw [tryParseOne, if_neg hgo]

/-- **Whatever is read is an entry.** -/
theorem ends_tryParseOne (hfailed : p.failed = false) (h : p.At text) (hne : text ≠ [])
    (feature : Feature) :
    Ends (fun f q => ∃ rest, Entry text f rest ∧ Moved p q rest) (p.tryParseOne feature) := by
  rw [tryParseOne_eq hfailed h hne, parseEntry]
  refine ends_expect h fun t₁ ht₁ => ?_
  rw [ht₁] at h
  have h₁ := h.advance
  refine ends_expect h₁ fun t₂ ht₂ => ?_
  rw [ht₂] at h₁
  have h₂ := h₁.advance
  refine ends_readLong h₂ fun a t₃ lat ht₃ ha hlat => ?_
  rw [ht₃] at h₂
  have h₃ := h₂.advance
  refine ends_expect h₃ fun t₄ ht₄ => ?_
  rw [ht₄] at h₃
  have h₄ := h₃.advance
  refine ends_readLong h₄ fun b t₅ lon ht₅ hb hlon => ?_
  rw [ht₅] at h₄
  have h₅ := h₄.advance
  refine ends_expect h₅ fun t₆ ht₆ => ?_
  rw [ht₆] at h₅
  refine ends_readName h₅.advance fun n tail rest ht₇ hn hend hrest => ?_
  simp only [advance_advance] at hrest ⊢
  refine ⟨rest, ?_, hrest.moved⟩
  rw [ht₁, ht₂, ht₃, ht₄, ht₅, ht₆, ht₇, ← List.append_assoc]
  exact .mk ha hlat hb hlon hn hend

theorem comma_head (t : List Char) :
    ∀ c ∈ ([",".toList, longitude].flatten ++ t).head?, inNumber c = false := by
  intro c hc
  cases hc
  rfl

theorem brace_head (t : List Char) :
    ∀ c ∈ (["\x7d,".toList, name, "\"".toList].flatten ++ t).head?, inNumber c = false := by
  intro c hc
  cases hc
  rfl

/-- **Every entry is read.** -/
theorem tryParseOne_entry {f : Feature} (hfailed : p.failed = false) (h : p.At text)
    (hentry : Entry text f rest) (feature : Feature) :
    ∃ q, p.tryParseOne feature = .ok ⟨true, f, q⟩ ∧ Moved p q rest := by
  have hne : text ≠ [] := List.ne_nil_of_length_pos (Nat.zero_lt_of_lt hentry.length_lt)
  rw [tryParseOne_eq hfailed h hne, parseEntry]
  cases hentry with
  | @mk a b n tail rest lat lon ha hlat hb hlon hn hend =>
    rw [beforeLatitude, beforeLongitude, beforeName, List.append_assoc] at h
    have h₁ := h.advance
    have h₂ := h₁.advance
    have h₃ := h₂.advance
    have h₄ := h₃.advance
    have h₅ := h₄.advance
    obtain ⟨heq, hrest⟩ :=
      readName_ending h₅.advance hn hend ((feature.setLatitude lat).setLongitude lon)
    have hmoved := hrest
    simp only [advance_advance] at hmoved
    refine ⟨_, ?_, hmoved.moved⟩
    rw [expect_append h, expect_append h₁, readLong_append h₂ ha (comma_head _) hlat, ok_bind,
      expect_append h₃, readLong_append h₄ hb (brace_head _) hlon, ok_bind, expect_append h₅]
    refine heq.trans ?_
    simp only [advance_advance]
    rfl

/-- A call that reads something moves the parser on. -/
theorem tryParseOne_progress {f : Feature} (hgo : p.finished = false)
    (h : p.tryParseOne feature = .ok ⟨true, f, q⟩) :
    q.db.length - q.current < p.db.length - p.current := by
  have hlt : p.current < p.db.length := by simpa [finished] using hgo
  have hat := at_drop hlt.le
  cases hfailed : p.failed with
  | true =>
    rw [tryParseOne, hfailed] at h
    cases h
  | false =>
    have hne : p.db.drop p.current ≠ [] := by
      rw [Ne, List.drop_eq_nil_iff]
      omega
    have hends := ends_tryParseOne hfailed hat hne feature
    rw [h] at hends
    cases hends with
    | parsed hparsed =>
      obtain ⟨rest, hentry, hmoved⟩ := hparsed
      have hshort := hentry.length_lt
      have hp := hat.length
      have hq := hmoved.reached.length
      omega

end Parser

/-! ## The whole database -/

/-- The loop of `ParseDb`, from the features read so far: whether it ended without an error, and
the features. -/
def parseLoop (p : Parser) (features : List Feature) : Except Error (Bool × List Feature) :=
  if _ : p.finished = false then
    match _ : p.tryParseOne .new with
    | .error e => .error e
    | .ok ⟨false, _, _⟩ => .ok (false, [])
    | .ok ⟨true, f, q⟩ => parseLoop q (features ++ [f])
  else
    .ok (true, features)
termination_by p.db.length - p.current
decreasing_by exact Parser.tryParseOne_progress ‹_› ‹_›

/-- What `ParseDb` leaves in the list, and what it prints. -/
structure DbResult where
  features : List Feature
  printed : List Char
  deriving DecidableEq, Repr

/-- The end of `ParseDb`, with the list the loop has left. -/
def loaded (features : List Feature) : DbResult :=
  ⟨features, "DB parsed, loaded ".toList ++ decimal features.length ++ " features.\n".toList⟩

/-- The same after the loop has cleared the list. -/
def notLoaded : DbResult := ⟨[], "Error parsing the db file".toList ++ (loaded []).printed⟩

/-- `ParseDb`. -/
def parseDb (db : List Char) : Except Error DbResult := do
  let parser ← Parser.new (removeSpaces db)
  let r ← parseLoop parser []
  .ok (if r.1 then loaded r.2 else notLoaded)

section Loop

variable {p q : Parser} {text : List Char} {features fs : List Feature} {f : Feature}

theorem parseLoop_finished (h : p.finished = true) :
    parseLoop p features = .ok (true, features) := by
  rw [parseLoop, dif_neg (by simp [h])]

theorem parseLoop_error {e : Error} (hgo : p.finished = false)
    (h : p.tryParseOne .new = .error e) : parseLoop p features = .error e := by
  rw [parseLoop, dif_pos hgo]
  split <;> simp_all

theorem parseLoop_failed (hgo : p.finished = false) (h : p.tryParseOne .new = .ok ⟨false, f, q⟩) :
    parseLoop p features = .ok (false, []) := by
  rw [parseLoop, dif_pos hgo]
  split <;> simp_all

theorem parseLoop_parsed (hgo : p.finished = false) (h : p.tryParseOne .new = .ok ⟨true, f, q⟩) :
    parseLoop p features = parseLoop q (features ++ [f]) := by
  rw [parseLoop, dif_pos hgo]
  split <;> simp_all

theorem Parser.At.finished_eq_false (h : p.At text) (hne : text ≠ []) : p.finished = false := by
  rw [← Bool.not_eq_true, h.finished_iff]
  exact hne

/-- What the loop can come to in front of a text. -/
inductive LoopEnds (text : List Char) (features : List Feature) :
    Except Error (Bool × List Feature) → Prop
  | threw (e : StoiError) : LoopEnds text features (.error (.stol e))
  | failed : LoopEnds text features (.ok (false, []))
  | parsed {fs : List Feature} (h : Entries text fs) :
      LoopEnds text features (.ok (true, features ++ fs))

theorem LoopEnds.cons {rest : List Char} {r : Except Error (Bool × List Feature)}
    (hentry : Entry text f rest) (h : LoopEnds rest (features ++ [f]) r) :
    LoopEnds text features r := by
  cases h with
  | threw e => exact .threw e
  | failed => exact .failed
  | parsed hfs =>
    rw [List.append_assoc]
    exact .parsed (.cons hentry hfs)

/-- **The loop accepts entries only.** -/
theorem parseLoop_ends (hfailed : p.failed = false) (h : p.At text) (features : List Feature) :
    LoopEnds text features (parseLoop p features) := by
  induction hlen : text.length using Nat.strongRecOn generalizing p text features with
  | ind n ih =>
    by_cases hne : text = []
    · have hdone : LoopEnds [] features (.ok (true, features ++ [])) := .parsed .nil
      rw [List.append_nil] at hdone
      rwa [parseLoop_finished (h.finished_iff.mpr hne), hne]
    · have hgo := h.finished_eq_false hne
      have hends := Parser.ends_tryParseOne hfailed h hne .new
      cases hr : p.tryParseOne .new with
      | error e =>
        rw [parseLoop_error hgo hr]
        rw [hr] at hends
        cases hends with
        | threw e => exact .threw e
      | ok r =>
        rw [hr] at hends
        cases hends with
        | failed f q =>
          rw [parseLoop_failed hgo hr]
          exact .failed
        | @parsed f q hparsed =>
          obtain ⟨rest, hentry, hmoved⟩ := hparsed
          rw [parseLoop_parsed hgo hr]
          exact .cons hentry (ih rest.length (hlen ▸ hentry.length_lt)
            (hmoved.failed.trans hfailed) hmoved.reached (features ++ [f]) rfl)

/-- **The loop accepts all entries.** -/
theorem parseLoop_entries (hentries : Entries text fs) (hfailed : p.failed = false)
    (h : p.At text) : parseLoop p features = .ok (true, features ++ fs) := by
  induction hentries generalizing p features with
  | nil => rw [parseLoop_finished (h.finished_iff.mpr rfl), List.append_nil]
  | cons hentry hrest ih =>
    obtain ⟨q, hq, hmoved⟩ := Parser.tryParseOne_entry hfailed h hentry .new
    have hgo := h.finished_eq_false
      (List.ne_nil_of_length_pos (Nat.zero_lt_of_lt hentry.length_lt))
    rw [parseLoop_parsed hgo hq, ih (hmoved.failed.trans hfailed) hmoved.reached,
      List.append_assoc]
    rfl

end Loop

/-- A text without white space that is accepted, with its features. At most one character is
accepted whatever it is, since the loop then has nothing to read. -/
inductive Accepted : List Char → List Feature → Prop
  | list {text : List Char} {fs : List Feature} (h : Entries text fs) : Accepted ('[' :: text) fs
  | short {text : List Char} (h : text.length ≤ 1) : Accepted text []

theorem removeSpaces_removeSpaces (text : List Char) :
    removeSpaces (removeSpaces text) = removeSpaces text := by
  simp [removeSpaces]

theorem parseDb_eq (db : List Char) :
    parseDb db =
      parseLoop ⟨!decide (['['] <+: removeSpaces db), removeSpaces db, 1⟩ [] >>= fun r =>
        .ok (if r.1 then loaded r.2 else notLoaded) := by
  have hat : Parser.At ⟨false, removeSpaces db, 0⟩ (removeSpaces db) := ⟨Nat.zero_le _, rfl⟩
  rw [parseDb, Parser.new, removeSpaces_removeSpaces, Parser.matchPrefix_at hat]
  change parseLoop (if decide (['['] <+: removeSpaces db) = true then _ else _) [] >>= _ = _
  cases decide (['['] <+: removeSpaces db) <;> rfl

/-- What `ParseDb` can come to. -/
inductive DbEnds (text : List Char) : Except Error DbResult → Prop
  | threw (e : StoiError) : DbEnds text (.error (.stol e))
  | failed : DbEnds text (.ok notLoaded)
  | parsed {fs : List Feature} (h : Accepted text fs) : DbEnds text (.ok (loaded fs))

theorem LoopEnds.db {text : List Char} {r : Except Error (Bool × List Feature)}
    (h : LoopEnds text [] r) :
    DbEnds ('[' :: text) (r >>= fun r => .ok (if r.1 then loaded r.2 else notLoaded)) := by
  cases h with
  | threw e => exact .threw e
  | failed => exact .failed
  | parsed h => exact .parsed (.list h)

theorem at_behind_bracket (text : List Char) : Parser.At ⟨false, '[' :: text, 1⟩ text :=
  ⟨Nat.le_add_left .., rfl⟩

theorem parseDb_ends (db : List Char) : DbEnds (removeSpaces db) (parseDb db) := by
  rw [parseDb_eq]
  generalize removeSpaces db = text
  by_cases hpre : ['['] <+: text
  · obtain ⟨rest, rfl⟩ := hpre
    rw [decide_eq_true (List.prefix_append ..)]
    exact (parseLoop_ends rfl (at_behind_bracket rest) []).db
  · rw [decide_eq_false hpre]
    by_cases hshort : text.length ≤ 1
    · rw [parseLoop_finished (decide_eq_true hshort)]
      exact .parsed (.short hshort)
    · rw [parseLoop_failed (decide_eq_false hshort) rfl]
      exact .failed

theorem parseDb_of_accepted {db : List Char} {fs : List Feature}
    (h : Accepted (removeSpaces db) fs) : parseDb db = .ok (loaded fs) := by
  rw [parseDb_eq]
  generalize removeSpaces db = text at h
  cases h with
  | list h =>
    rw [decide_eq_true ⟨_, rfl⟩]
    change parseLoop ⟨false, _, 1⟩ [] >>= _ = _
    rw [parseLoop_entries h rfl (at_behind_bracket _)]
    rfl
  | short h =>
    rw [parseLoop_finished (decide_eq_true h)]
    rfl

/-- **Safety.** The only exceptions are those of `std::stol`: no `substr` starts behind the end
of the text and no character behind its terminator is read. -/
theorem parseDb_error {db : List Char} {e : Error} (h : parseDb db = .error e) :
    ∃ s, e = .stol s := by
  have hends := parseDb_ends db
  rw [h] at hends
  cases hends with
  | threw s => exact ⟨s, rfl⟩

theorem parseDb_no_number :
    parseDb "[ \x7b \"location\": \x7b \"latitude\": north".toList =
        .error (.stol .invalidArgument) ∧
      ∃ s, Error.stol .invalidArgument = .stol s := by
  have herror : parseDb "[ \x7b \"location\": \x7b \"latitude\": north".toList =
      .error (.stol .invalidArgument) := by
    rw [parseDb_eq, parseLoop_error rfl rfl]
    rfl
  exact ⟨herror, parseDb_error herror⟩

/-! ## Reading back what was written -/

/-- The text of a feature up to the quote of its name. -/
def Feature.text (f : Feature) : List Char :=
  beforeLatitude ++ (decimal f.location.latitude ++ (beforeLongitude ++
    (decimal f.location.longitude ++ (beforeName ++ (f.name ++ ['"'])))))

/-- The entries of a database in the form that the comment at `Parser` asks for. -/
def entriesText : List Feature → List Char
  | [] => "]".toList
  | [f] => f.text ++ "\x7d]".toList
  | f :: fs => f.text ++ "\x7d,".toList ++ entriesText fs

/-- The database of these features. -/
def dbText (fs : List Feature) : List Char := '[' :: entriesText fs

/-- The feature with the white space of its name removed. -/
def Feature.stripped (f : Feature) : Feature := { f with name := removeSpaces f.name }

/-- The coordinates are those of the message's type and the name has no quote. -/
structure Feature.Fits (f : Feature) : Prop where
  latitude : intMin ≤ f.location.latitude ∧ f.location.latitude ≤ intMax
  longitude : intMin ≤ f.location.longitude ∧ f.location.longitude ≤ intMax
  name : '"' ∉ f.name

theorem removeSpaces_append (a b : List Char) :
    removeSpaces (a ++ b) = removeSpaces a ++ removeSpaces b := List.filter_append ..

theorem removeSpaces_decimal (n : ℤ) : removeSpaces (decimal n) = decimal n := by
  rw [removeSpaces, List.filter_eq_self]
  intro c hc
  rcases isDigit_or_eq_of_mem_decimal hc with hdigit | rfl
  · rw [isSpace_of_isDigit hdigit]
    rfl
  · decide

theorem Feature.removeSpaces_text (f : Feature) : removeSpaces f.text = f.stripped.text := by
  have hlat : removeSpaces beforeLatitude = beforeLatitude := by decide
  have hlon : removeSpaces beforeLongitude = beforeLongitude := by decide
  have hname : removeSpaces beforeName = beforeName := by decide
  simp only [Feature.text, removeSpaces_append, removeSpaces_decimal, hlat, hlon, hname]
  rfl

theorem removeSpaces_entriesText (fs : List Feature) :
    removeSpaces (entriesText fs) = entriesText (fs.map Feature.stripped) := by
  match fs with
  | [] => decide
  | [f] =>
    rw [entriesText, removeSpaces_append, f.removeSpaces_text]
    rfl
  | f :: g :: fs =>
    rw [entriesText, removeSpaces_append, removeSpaces_append, f.removeSpaces_text,
      removeSpaces_entriesText (g :: fs)]
    · rfl
    · exact List.cons_ne_nil _ _

theorem Feature.Fits.stripped {f : Feature} (h : f.Fits) : f.stripped.Fits where
  latitude := h.latitude
  longitude := h.longitude
  name := fun hmem => h.name (List.mem_of_mem_filter hmem)

theorem stol_coordinate {n : ℤ} (h : intMin ≤ n ∧ n ≤ intMax) : stol (decimal n) = .ok n :=
  stol_decimal (le_trans (by decide) h.1) (le_trans h.2 (by decide))

theorem toInt32_coordinate {n : ℤ} (h : intMin ≤ n ∧ n ≤ intMax) : toInt32 n = n := by
  obtain ⟨hlo, hhi⟩ := h
  simp only [intMin, intMax] at hlo hhi
  exact Int.bmod_eq_of_le (by omega) (by omega)

theorem inNumber_of_mem_decimal {n : ℤ} : ∀ c ∈ decimal n, Parser.inNumber c = true := by
  intro c hc
  rcases isDigit_or_eq_of_mem_decimal hc with hdigit | rfl
  · have hrange := isDigit_toNat hdigit
    have hcomma : c ≠ ',' := by
      rintro rfl
      exact absurd hrange (by decide)
    have hbrace : c ≠ '}' := by
      rintro rfl
      exact absurd hrange (by decide)
    simp [Parser.inNumber, hcomma, hbrace]
  · decide

theorem Feature.Fits.entry {f : Feature} {tail rest : List Char} (h : f.Fits)
    (hend : Ending tail rest) : Entry (f.text ++ tail) f rest := by
  have hentry := Entry.mk inNumber_of_mem_decimal (stol_coordinate h.latitude)
    inNumber_of_mem_decimal (stol_coordinate h.longitude) h.name hend
  rw [toInt32_coordinate h.latitude, toInt32_coordinate h.longitude] at hentry
  simpa only [Feature.text, List.append_assoc, List.singleton_append] using hentry

theorem entries_entriesText {fs : List Feature} (hne : fs ≠ []) (h : ∀ f ∈ fs, f.Fits) :
    Entries (entriesText fs) fs := by
  match fs, hne with
  | [f], _ =>
    exact .cons ((h f (List.mem_singleton_self f)).entry (.last '}')) .nil
  | f :: g :: fs, _ =>
    rw [entriesText, List.append_assoc]
    · have hfs := entries_entriesText (List.cons_ne_nil g fs)
        (fun x hx => h x (List.mem_cons_of_mem f hx))
      exact .cons ((h f (List.mem_cons_self ..)).entry (.more _)) hfs
    · exact List.cons_ne_nil _ _

theorem removeSpaces_dbText {fs : List Feature} {db : List Char}
    (hdb : removeSpaces db = removeSpaces (dbText fs)) :
    removeSpaces db = '[' :: entriesText (fs.map Feature.stripped) := by
  rw [hdb, ← removeSpaces_entriesText]
  rfl

theorem parseDb_of_dbText {fs : List Feature} {db : List Char} (hne : fs ≠ [])
    (h : ∀ f ∈ fs, f.Fits) (hdb : removeSpaces db = removeSpaces (dbText fs)) :
    parseDb db = .ok (loaded (fs.map Feature.stripped)) := by
  refine parseDb_of_accepted ?_
  rw [removeSpaces_dbText hdb]
  refine .list (entries_entriesText (by simpa using hne) fun f hf => ?_)
  obtain ⟨g, hg, rfl⟩ := List.mem_map.mp hf
  exact (h g hg).stripped

/-- **Round trip.** A database in the form of the comment, with white space put in or left out
anywhere, is read as its features without the white space of their names. The database of no
features is refused. -/
theorem parseDb_dbText {fs : List Feature} {db : List Char} (h : ∀ f ∈ fs, f.Fits)
    (hdb : removeSpaces db = removeSpaces (dbText fs)) :
    parseDb db =
      .ok (if fs = [] then notLoaded else loaded (fs.map Feature.stripped)) := by
  by_cases hne : fs = []
  · subst hne
    rw [if_pos rfl, parseDb_eq, removeSpaces_dbText hdb, parseLoop_failed rfl rfl]
    rfl
  · rw [if_neg hne]
    exact parseDb_of_dbText hne h hdb

/-- The first entry of `route_guide_db.json`, on its own. -/
def patriotsPath : Feature :=
  ⟨"Patriots Path, Mendham, NJ 07945, USA".toList, ⟨407838351, -746143763⟩⟩

theorem parseDb_patriotsPath :
    patriotsPath.stripped.name = "PatriotsPath,Mendham,NJ07945,USA".toList ∧
      parseDb ("[\x7b\n    \"location\": \x7b\n        \"latitude\": 407838351,\n" ++
        "        \"longitude\": -746143763\n    \x7d,\n" ++
        "    \"name\": \"Patriots Path, Mendham, NJ 07945, USA\"\n\x7d]\n").toList =
          .ok (loaded [patriotsPath.stripped]) := by
  have hfits : ∀ f ∈ [patriotsPath], f.Fits := by
    intro f hf
    rw [List.mem_singleton.mp hf]
    exact ⟨by decide, by decide, by decide⟩
  exact ⟨by decide, parseDb_dbText hfits (by decide +kernel)⟩

end RouteGuide

end CppPlayground
