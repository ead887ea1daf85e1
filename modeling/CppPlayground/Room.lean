import Mathlib.Data.Finset.Basic

/-!
# Rooms: what one member says is passed on to the others

People join a room, leave it and say things. What is said has to be sent to everybody else
who is in the room at that moment, once, and to nobody else.

* `Event`, `members` — the trace of a room and who is in it.
* `Served` — the traces in which every word was passed on as it should be.
* `Telling` — the traces in which the last word is being passed on; its lemmas are the
  steps of a server that tells one member after the other.
-/

namespace Room

universe u v

variable {P : Type u} {M : Type v}

/-! ## Traces -/

/-- What happens in a room. -/
inductive Event (P : Type u) (M : Type v) : Type (max u v)
  | joined (p : P)
  | left (p : P)
  | said (p : P) (m : M)
  /-- the server sends `m` to `p` -/
  | sent (p : P) (m : M)
  deriving DecidableEq

variable [DecidableEq P]

/-- Who is in the room after an event. -/
def Event.apply (present : Finset P) : Event P M → Finset P
  | joined p => insert p present
  | left p => present.erase p
  | said _ _ | sent _ _ => present

/-- Who is in the room at the end of a trace. -/
def members (trace : List (Event P M)) : Finset P :=
  trace.foldl Event.apply ∅

variable {trace : List (Event P M)} {p q : P} {m : M}

@[simp] theorem members_nil : members ([] : List (Event P M)) = ∅ := rfl

@[simp] theorem members_concat (e : Event P M) :
    members (trace ++ [e]) = e.apply (members trace) := by
  simp [members]

/-- Telling people changes nothing about who is there. -/
theorem members_append_sent (l : List P) :
    members (trace ++ l.map (.sent · m)) = members trace := by
  induction l generalizing trace with
  | nil => rw [List.map_nil, List.append_nil]
  | cons q l ih => rw [List.map_cons, List.append_cons, ih, members_concat, Event.apply]

/-! ## Everything is passed on -/

/-- The trace of a room in which every word of a member is sent at once to each of the
others, in some order, and nothing else is sent. -/
inductive Served : List (Event P M) → Prop
  | nil : Served []
  | joined {trace : List (Event P M)} (h : Served trace) (p : P) :
      Served (trace ++ [.joined p])
  | left {trace : List (Event P M)} (h : Served trace) (p : P) : Served (trace ++ [.left p])
  | said {trace : List (Event P M)} (h : Served trace) {p : P} (hp : p ∈ members trace)
      (m : M) {others : List P} (hnodup : others.Nodup)
      (hmem : ∀ q, q ∈ others ↔ q ∈ members trace ∧ q ≠ p) :
      Served (trace ++ .said p m :: others.map (.sent · m))

/-! ## Passing on one word -/

/-- Member `p` has said `m`, and so far it has been sent, once, to those of the others for
whom `told` holds. -/
def Telling (trace : List (Event P M)) (p : P) (m : M) (told : P → Prop) : Prop :=
  ∃ (before : List (Event P M)) (others : List P),
    trace = before ++ .said p m :: others.map (.sent · m) ∧ Served before ∧
    p ∈ members before ∧ others.Nodup ∧
    ∀ q, q ∈ others ↔ q ∈ members before ∧ q ≠ p ∧ told q

namespace Telling

variable {told told' : P → Prop}

/-- Those present are those who were there when the word was said. -/
theorem members_eq {before : List (Event P M)} {others : List P} :
    members (before ++ .said p m :: others.map (.sent · m)) = members before := by
  rw [List.append_cons, members_append_sent, members_concat, Event.apply]

theorem start (h : Served trace) (hp : p ∈ members trace) (hnone : ∀ q, ¬ told q) :
    Telling (trace ++ [.said p m]) p m told :=
  ⟨trace, [], rfl, h, hp, List.nodup_nil, fun q => by simp [hnone q]⟩

/-- Only what is told to the others matters. -/
theorem congr (h : Telling trace p m told)
    (heq : ∀ q ∈ members trace, q ≠ p → (told' q ↔ told q)) : Telling trace p m told' := by
  obtain ⟨before, others, rfl, hserved, hp, hnodup, hmem⟩ := h
  rw [members_eq] at heq
  refine ⟨before, others, rfl, hserved, hp, hnodup, fun q => ?_⟩
  rw [hmem q]
  constructor
  · rintro ⟨hq, hne, htold⟩
    exact ⟨hq, hne, (heq q hq hne).mpr htold⟩
  · rintro ⟨hq, hne, htold⟩
    exact ⟨hq, hne, (heq q hq hne).mp htold⟩

/-- One more of the others is told. -/
theorem send (h : Telling trace p m told) (hq : q ∈ members trace) (hne : q ≠ p)
    (hnot : ¬ told q) (heq : ∀ r, told' r ↔ told r ∨ r = q) :
    Telling (trace ++ [.sent q m]) p m told' := by
  obtain ⟨before, others, rfl, hserved, hp, hnodup, hmem⟩ := h
  rw [members_eq] at hq
  have hnew : q ∉ others := fun hin => hnot ((hmem q).mp hin).2.2
  refine ⟨before, others ++ [q], by simp, hserved, hp, ?_, fun r => ?_⟩
  · rw [List.nodup_append_comm]
    exact List.nodup_cons.mpr ⟨hnew, hnodup⟩
  · rw [List.mem_append, List.mem_singleton, hmem r, heq r]
    constructor
    · rintro (⟨hr, hrp, htold⟩ | rfl)
      · exact ⟨hr, hrp, .inl htold⟩
      · exact ⟨hq, hne, .inr rfl⟩
    · rintro ⟨hr, hrp, htold | rfl⟩
      · exact .inl ⟨hr, hrp, htold⟩
      · exact .inr rfl

/-- When all the others have been told, the word has been passed on. -/
theorem done (h : Telling trace p m told) (hall : ∀ q ∈ members trace, q ≠ p → told q) :
    Served trace := by
  obtain ⟨before, others, rfl, hserved, hp, hnodup, hmem⟩ := h
  rw [members_eq] at hall
  refine .said hserved hp m hnodup fun q => ?_
  rw [hmem q]
  exact ⟨fun hq => ⟨hq.1, hq.2.1⟩, fun hq => ⟨hq.1, hq.2, hall q hq.1 hq.2⟩⟩

end Telling

end Room
