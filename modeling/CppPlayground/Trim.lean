import CppPlayground.TextStream
import Mathlib.Data.List.DropRight

/-!
# Trimming messages

`trim` (`uwebsockets/src/trim.h`) moves one iterator forward over white space, then another one
backward until it meets a character that is no white space or the first iterator, and returns
what is between them. The message handlers compare the result with a command word.

An iterator is its distance from `s.begin()`, an integer, so that the iterator before
`s.begin()` is a value like any other. Each of the two iterators keeps the history of the values
it had and of the places it was dereferenced at. `std::isspace` depends on the locale and is a
parameter. Where `char` is signed the bytes from `0x80` on are negative, and `std::isspace` is
undefined for them; the parameter answers for every character, so that for such texts nothing
is said about the program.

The first loop ends behind the white space at the start of the text (`skipForward_pos`), the
second one at the last other character (`skipBackward_pos`), so that `trim` takes white space
off both sides (`trim_append`). The iterators stay in the text exactly if the text is not empty
(`inRange_iff`): the second loop steps before it looks.
-/

namespace CppPlayground

namespace Trim

variable (isspace : Char → Bool)

/-! ## Iterators -/

/-- An iterator, with its history. -/
structure Iterator where
  /-- the distance from `s.begin()` -/
  pos : ℤ
  /-- history: the values it had -/
  formed : List ℤ
  /-- history: the values it had when it was dereferenced -/
  dereferenced : List ℤ
  deriving DecidableEq, Repr

/-- An iterator is made. -/
def Iterator.atPos (pos : ℤ) : Iterator := ⟨pos, [pos], []⟩

/-- `it++` and `it--`. -/
def Iterator.move (it : Iterator) (d : ℤ) : Iterator :=
  { it with pos := it.pos + d, formed := it.formed ++ [it.pos + d] }

@[simp]
theorem Iterator.pos_move (it : Iterator) (d : ℤ) : (it.move d).pos = it.pos + d := rfl

/-- `*it`, as a note in the history. -/
def Iterator.dereference (it : Iterator) : Iterator :=
  { it with dereferenced := it.dereferenced ++ [it.pos] }

@[simp]
theorem Iterator.pos_dereference (it : Iterator) : it.dereference.pos = it.pos := rfl

/-- `std::isspace(*it)`. No character is read outside of the text. -/
def isspaceAt (s : List Char) (pos : ℤ) : Bool :=
  decide (0 ≤ pos) && s[pos.toNat]?.any isspace

theorem isspaceAt_natCast (s : List Char) (n : ℕ) :
    isspaceAt isspace s n = s[n]?.any isspace := by
  simp [isspaceAt]

theorem lt_of_isspaceAt {s : List Char} {pos : ℤ} (h : isspaceAt isspace s pos = true) :
    pos < s.length := by
  rw [isspaceAt, Bool.and_eq_true, decide_eq_true_eq] at h
  obtain ⟨hpos, hany⟩ := h
  have hlt : pos.toNat < s.length := by
    by_contra hge
    rw [List.getElem?_eq_none (not_lt.mp hge)] at hany
    cases hany
  omega

/-! ## The source -/

/-- The first loop: `while (start != s.end() && std::isspace(*start)) start++`. -/
def skipForward (s : List Char) (start : Iterator) : Iterator :=
  if start.pos ≠ s.length then
    if isspaceAt isspace s start.pos = true then skipForward s (start.dereference.move 1)
    else start.dereference
  else start
termination_by (s.length - start.pos).toNat
decreasing_by
  rename_i hspace
  have := lt_of_isspaceAt isspace hspace
  simp only [Iterator.pos_move, Iterator.pos_dereference]
  omega

/-- The second loop:
`do { end--; } while (std::distance(start, end) > 0 && std::isspace(*end))`. -/
def skipBackward (s : List Char) (start : ℤ) (finish : Iterator) : Iterator :=
  if (finish.move (-1)).pos - start > 0 then
    if isspaceAt isspace s (finish.move (-1)).pos = true then
      skipBackward s start (finish.move (-1)).dereference
    else (finish.move (-1)).dereference
  else finish.move (-1)
termination_by (finish.pos - start).toNat
decreasing_by
  rename_i hdist _
  simp only [Iterator.pos_move, Iterator.pos_dereference] at hdist ⊢
  omega

/-- `start` after the first loop. -/
def start (s : List Char) : Iterator := skipForward isspace s (.atPos 0)

/-- `end` after the second loop. -/
def finish (s : List Char) : Iterator :=
  skipBackward isspace s (start isspace s).pos (.atPos s.length)

/-- `std::string(first, last)`. -/
def between (s : List Char) (first last : ℤ) : List Char :=
  (s.take last.toNat).drop first.toNat

/-- `trim`. -/
def trim (s : List Char) : List Char :=
  between s (start isspace s).pos ((finish isspace s).pos + 1)

/-! ## The first loop -/

variable {isspace}

/-- A text whose first part is white space, and whose second part does not start with it, is
passed up to the second part. -/
theorem skipForward_pos {m : List Char} (hm : ∀ c, m.head? = some c → isspace c = false) :
    ∀ {l p : List Char} {it : Iterator}, it.pos = p.length → l.all isspace = true →
      (skipForward isspace (p ++ l ++ m) it).pos = (p ++ l).length := by
  intro l
  induction l with
  | nil =>
    intro p it hpos _
    rw [skipForward]
    split
    · rename_i hne
      have hspace : ¬ isspaceAt isspace (p ++ [] ++ m) it.pos = true := by
        rw [hpos, isspaceAt_natCast, List.append_nil, List.getElem?_append_right le_rfl,
          Nat.sub_self, ← List.head?_eq_getElem?]
        cases hhead : m.head? with
        | none => exact Bool.false_ne_true
        | some c => simp [hm c hhead]
      rw [if_neg hspace, List.append_nil]
      exact hpos
    · rw [List.append_nil]
      exact hpos
  | cons c l ih =>
    intro p it hpos hall
    rw [List.all_cons, Bool.and_eq_true] at hall
    have hne : it.pos ≠ ((p ++ c :: l ++ m).length : ℤ) := by
      simp only [List.length_append, List.length_cons]
      omega
    have hspace : isspaceAt isspace (p ++ c :: l ++ m) it.pos = true := by
      rw [hpos, isspaceAt_natCast, List.append_assoc, List.getElem?_append_right le_rfl,
        Nat.sub_self]
      exact hall.1
    have happend : p ++ c :: l = (p ++ [c]) ++ l := by
      rw [List.append_assoc, List.singleton_append]
    rw [skipForward, if_pos hne, if_pos hspace, happend]
    apply ih _ hall.2
    rw [Iterator.pos_move, Iterator.pos_dereference, List.length_append, List.length_singleton,
      hpos]
    rfl

/-! ## The second loop -/

/-- The second loop stops at the last character of the middle part if all that follows, up to
where it starts, is white space. -/
theorem skipBackward_pos {p m q : List Char} (hne : m ≠ [])
    (hm : ∀ c, m.getLast? = some c → isspace c = false) :
    ∀ {r : List Char} {it : Iterator}, it.pos = (p ++ m ++ r).length → r.all isspace = true →
      (skipBackward isspace (p ++ m ++ r ++ q) p.length it).pos + 1 = (p ++ m).length := by
  have hlen : 0 < m.length := List.length_pos_iff.mpr hne
  intro r
  induction r using List.reverseRecOn generalizing q with
  | nil =>
    intro it hpos _
    rw [List.append_nil] at hpos ⊢
    have hmoved : (it.move (-1)).pos = ((p ++ m).length - 1 : ℕ) := by
      rw [Iterator.pos_move, hpos, List.length_append]
      omega
    have hspace : ¬ isspaceAt isspace (p ++ m ++ q) (it.move (-1)).pos = true := by
      have hlast : (p ++ m ++ q)[(p ++ m).length - 1]? = m.getLast? := by
        rw [List.getElem?_append_left (by rw [List.length_append]; omega),
          ← List.getLast?_eq_getElem?, List.getLast?_append_of_ne_nil _ hne]
      rw [hmoved, isspaceAt_natCast, hlast]
      cases h : m.getLast? with
      | none => exact Bool.false_ne_true
      | some c => simp [hm c h]
    have hend : (it.move (-1)).pos + 1 = (p ++ m).length := by
      rw [hmoved, List.length_append]
      omega
    rw [skipBackward, if_neg hspace]
    split
    · exact hend
    · exact hend
  | append_singleton r c ih =>
    intro it hpos hall
    rw [List.all_append, Bool.and_eq_true] at hall
    have hmoved : (it.move (-1)).pos = (p ++ m ++ r).length := by
      rw [Iterator.pos_move, hpos]
      simp only [List.length_append, List.length_singleton]
      omega
    have hdist : (it.move (-1)).pos - p.length > 0 := by
      rw [hmoved]
      simp only [List.length_append]
      omega
    have happend : p ++ m ++ (r ++ [c]) ++ q = p ++ m ++ r ++ ([c] ++ q) := by
      simp only [List.append_assoc]
    have hspace : isspaceAt isspace (p ++ m ++ r ++ ([c] ++ q)) (it.move (-1)).pos = true := by
      rw [hmoved, isspaceAt_natCast, List.getElem?_append_right le_rfl, Nat.sub_self]
      rw [List.all_cons, Bool.and_eq_true] at hall
      exact hall.2.1
    rw [happend, skipBackward, if_pos hdist, if_pos hspace]
    exact ih hmoved hall.1

/-- If the first loop has passed everything, the second one steps once. -/
theorem skipBackward_of_le (s : List Char) {first : ℤ} {it : Iterator} (h : it.pos ≤ first) :
    skipBackward isspace s first it = it.move (-1) := by
  have hdist : ¬ (it.move (-1)).pos - first > 0 := by
    rw [Iterator.pos_move]
    omega
  rw [skipBackward, if_neg hdist]

/-! ## What is left -/

/-- A text does not start or end with white space. -/
def Trimmed (isspace : Char → Bool) (m : List Char) : Prop :=
  (∀ c, m.head? = some c → isspace c = false) ∧ ∀ c, m.getLast? = some c → isspace c = false

/-- **Surrounding white space goes away.** -/
theorem trim_append {l m r : List Char} (hl : l.all isspace = true) (hr : r.all isspace = true)
    (hm : Trimmed isspace m) : trim isspace (l ++ m ++ r) = m := by
  by_cases hne : m = []
  · -- all is white space: the first loop passes it, the second one steps back once
    subst hne
    have hall : (l ++ r).all isspace = true := by
      rw [List.all_append, hl, hr]
      rfl
    have hnil : ∀ c, ([] : List Char).head? = some c → isspace c = false := by
      intro c h
      cases h
    have hstart : (start isspace (l ++ r)).pos = (l ++ r).length := by
      have h : (skipForward isspace ([] ++ (l ++ r) ++ []) (.atPos 0)).pos = _ :=
        skipForward_pos hnil rfl hall
      rwa [List.append_nil, List.nil_append] at h
    rw [List.append_nil, trim, finish, skipBackward_of_le _ hstart.ge, hstart, between,
      Int.toNat_natCast]
    apply List.drop_eq_nil_of_le
    exact List.length_take_le' ..
  · have hstart : (start isspace (l ++ m ++ r)).pos = l.length := by
      have hhead : ∀ c, (m ++ r).head? = some c → isspace c = false := by
        intro c h
        rw [List.head?_append_of_ne_nil _ hne] at h
        exact hm.1 c h
      have h : (skipForward isspace ([] ++ l ++ (m ++ r)) (.atPos 0)).pos = _ :=
        skipForward_pos hhead rfl hl
      rwa [List.nil_append, ← List.append_assoc] at h
    have hfinish : (finish isspace (l ++ m ++ r)).pos + 1 = (l ++ m).length := by
      have h : (skipBackward isspace (l ++ m ++ r ++ []) l.length
          (.atPos (l ++ m ++ r).length)).pos + 1 = _ := skipBackward_pos hne hm.2 rfl hr
      rwa [List.append_nil, ← hstart] at h
    rw [trim, hfinish, hstart, between, Int.toNat_natCast, Int.toNat_natCast, List.take_left,
      List.drop_left]

/-- Every text is a trimmed one, surrounded by white space. -/
theorem exists_trimmed (isspace : Char → Bool) (s : List Char) : ∃ l m r, s = l ++ m ++ r ∧
    l.all isspace = true ∧ r.all isspace = true ∧ Trimmed isspace m := by
  have hsplit : (s.dropWhile isspace).rdropWhile isspace ++
      (s.dropWhile isspace).rtakeWhile isspace = s.dropWhile isspace :=
    List.rdropWhile_append_rtakeWhile ..
  refine ⟨s.takeWhile isspace, (s.dropWhile isspace).rdropWhile isspace,
    (s.dropWhile isspace).rtakeWhile isspace, ?_, List.all_takeWhile, ?_, ?_, ?_⟩
  · rw [List.append_assoc, hsplit, List.takeWhile_append_dropWhile]
  · rw [List.all_eq_true]
    intro c hc
    exact List.mem_rtakeWhile_imp hc
  · intro c hc
    -- the first character of the middle part is that of the text without its first part
    have hhead : (s.dropWhile isspace).head? = some c := by
      rw [← hsplit, List.head?_append, hc]
      rfl
    have h := List.head?_dropWhile_not isspace s
    rw [hhead] at h
    exact h
  · intro c hc
    have hne : (s.dropWhile isspace).rdropWhile isspace ≠ [] := by
      intro hnil
      rw [hnil] at hc
      cases hc
    rw [List.getLast?_eq_some_getLast hne, Option.some_inj] at hc
    rw [← hc]
    exact Bool.eq_false_iff.mpr (List.rdropWhile_last_not _ _ hne)

theorem trimmed_of_free {w : List Char} (h : w.any isspace = false) : Trimmed isspace w := by
  rw [List.any_eq_false] at h
  exact ⟨fun c hc => Bool.eq_false_iff.mpr (h c (List.mem_of_head? hc)),
    fun c hc => Bool.eq_false_iff.mpr (h c (List.mem_of_getLast? hc))⟩

/-- **Exactly the surrounding white space goes away**: what is left is the text between white
space, it is empty or starts and ends with other characters, it is left alone when it is trimmed
again, and it is a word without white space exactly if the text is that word in white space. -/
theorem trim_spec (isspace : Char → Bool) (s : List Char) :
    (∃ l r, s = l ++ trim isspace s ++ r ∧ l.all isspace = true ∧ r.all isspace = true) ∧
    Trimmed isspace (trim isspace s) ∧
    trim isspace (trim isspace s) = trim isspace s ∧
    ∀ w : List Char, w.any isspace = false → (trim isspace s = w ↔
      ∃ l r, s = l ++ w ++ r ∧ l.all isspace = true ∧ r.all isspace = true) := by
  obtain ⟨l, m, r, rfl, hl, hr, hm⟩ := exists_trimmed isspace s
  have hagain : trim isspace m = m := by
    have h := trim_append (l := []) (r := []) rfl rfl hm
    rwa [List.nil_append, List.append_nil] at h
  rw [trim_append hl hr hm]
  refine ⟨⟨l, r, rfl, hl, hr⟩, hm, hagain, fun w hw => ⟨?_, ?_⟩⟩
  · rintro rfl
    exact ⟨l, r, rfl, hl, hr⟩
  · rintro ⟨l', r', heq, hl', hr'⟩
    rw [← trim_append hl hr hm, heq, trim_append hl' hr' (trimmed_of_free hw)]

/-! ## Where the iterators go -/

/-- An iterator has only had values from the beginning of a text of length `n` to its end, and
has only been dereferenced before the end. -/
def Iterator.InRange (n : ℕ) (it : Iterator) : Prop :=
  (∀ pos ∈ it.formed, 0 ≤ pos ∧ pos ≤ n) ∧ ∀ pos ∈ it.dereferenced, pos < n

instance (n : ℕ) (it : Iterator) : Decidable (it.InRange n) :=
  inferInstanceAs (Decidable (_ ∧ _))

namespace Iterator

variable {n : ℕ} {it : Iterator}

theorem inRange_atPos {pos : ℤ} (hlo : 0 ≤ pos) (hhi : pos ≤ n) :
    (Iterator.atPos pos).InRange n := by
  refine ⟨?_, ?_⟩
  · intro q hq
    rw [List.mem_singleton.mp hq]
    exact ⟨hlo, hhi⟩
  · intro q hq
    cases hq

theorem InRange.move (h : it.InRange n) {d : ℤ} (hlo : 0 ≤ it.pos + d) (hhi : it.pos + d ≤ n) :
    (it.move d).InRange n := by
  refine ⟨?_, h.2⟩
  intro q hq
  rcases List.mem_append.mp hq with hq | hq
  · exact h.1 q hq
  · rw [List.mem_singleton.mp hq]
    exact ⟨hlo, hhi⟩

theorem InRange.dereference (h : it.InRange n) (hlt : it.pos < n) : it.dereference.InRange n := by
  refine ⟨h.1, ?_⟩
  intro q hq
  rcases List.mem_append.mp hq with hq | hq
  · exact h.2 q hq
  · rw [List.mem_singleton.mp hq]
    exact hlt

end Iterator

/-- The first loop stays in the text. -/
theorem skipForward_inRange {s : List Char} {it : Iterator} (hit : it.InRange s.length)
    (hlo : 0 ≤ it.pos) (hhi : it.pos ≤ s.length) :
    (skipForward isspace s it).InRange s.length ∧ 0 ≤ (skipForward isspace s it).pos ∧
      (skipForward isspace s it).pos ≤ s.length := by
  fun_induction skipForward isspace s it with
  | case1 it hne _ ih =>
    have hlt : it.pos < s.length := lt_of_le_of_ne hhi hne
    apply ih
    · exact (hit.dereference hlt).move (Int.add_nonneg hlo Int.one_nonneg) hlt
    · exact Int.add_nonneg hlo Int.one_nonneg
    · exact hlt
  | case2 it hne _ => exact ⟨hit.dereference (lt_of_le_of_ne hhi hne), hlo, hhi⟩
  | case3 it _ => exact ⟨hit, hlo, hhi⟩

/-- The second loop stays in the text if it has a first step to go. -/
theorem skipBackward_inRange {s : List Char} {first : ℤ} {it : Iterator}
    (hit : it.InRange s.length) (hfirst : 0 ≤ first) (hlo : 1 ≤ it.pos)
    (hhi : it.pos ≤ s.length) : (skipBackward isspace s first it).InRange s.length := by
  fun_induction skipBackward isspace s first it with
  | case1 it hdist _ ih =>
    rw [Iterator.pos_move] at hdist
    have hmoved : (it.move (-1)).InRange s.length := hit.move (by omega) (by omega)
    apply ih
    · exact hmoved.dereference (by rw [Iterator.pos_move]; omega)
    · rw [Iterator.pos_dereference, Iterator.pos_move]
      omega
    · rw [Iterator.pos_dereference, Iterator.pos_move]
      omega
  | case2 it _ _ =>
    apply (hit.move (by omega) (by omega)).dereference
    rw [Iterator.pos_move]
    omega
  | case3 it _ => exact hit.move (by omega) (by omega)

/-- **The iterators stay in the text exactly if it is not empty.** -/
theorem inRange_iff (isspace : Char → Bool) (s : List Char) :
    ((start isspace s).InRange s.length ∧ (finish isspace s).InRange s.length) ↔ s ≠ [] := by
  have hstart : (start isspace s).InRange s.length ∧ 0 ≤ (start isspace s).pos ∧
      (start isspace s).pos ≤ s.length :=
    skipForward_inRange (Iterator.inRange_atPos le_rfl (Int.natCast_nonneg _)) le_rfl
      (Int.natCast_nonneg _)
  constructor
  · rintro ⟨-, hfinish⟩ rfl
    rw [finish, skipBackward_of_le _ hstart.2.1] at hfinish
    exact absurd (hfinish.1 (-1) (List.mem_cons_of_mem _ (List.mem_cons_self ..))).1 (by decide)
  · intro hne
    have hlen : 0 < s.length := List.length_pos_iff.mpr hne
    refine ⟨hstart.1, ?_⟩
    apply skipBackward_inRange (Iterator.inRange_atPos (Int.natCast_nonneg _) le_rfl) hstart.2.1
    · exact Int.toNat_le.mp hlen
    · exact le_rfl

/-- The empty message: the second loop makes the iterator before the first one. -/
theorem empty_not_inRange : ¬ ((start TextStream.isSpace []).InRange 0 ∧
    (finish TextStream.isSpace []).InRange 0) := by
  decide +kernel

end Trim

end CppPlayground
