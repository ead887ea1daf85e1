import Mathlib.Data.List.Nodup
import Mathlib.Logic.Function.Basic

/-!
# Lifetimes of objects in cells

Objects of various types are placed in cells and destroyed there. An object is known by the
number it was placed as; the types are kept in the list of what was placed, and a history
tells which objects were destroyed, by the destructor of which type.

`Lifetimes` says that all is well: each object is destroyed at most once and by the
destructor of its own type, and until then it lives in a cell of its own. It is kept by
placing an object in an empty cell, and by destroying one as what it is.
-/

namespace Lifetimes

universe u v

variable {T : Type u} {C : Type v}

/-- The accounts are right: `alive` tells which object lives in a cell. -/
structure Ok (placed : List T) (destroyed : List (ℕ × T)) (alive : C → Option ℕ) : Prop where
  /-- what lives was placed -/
  alive_lt : ∀ c id, alive c = some id → id < placed.length
  /-- no object lives in two cells -/
  alive_inj : ∀ c c' id, alive c = some id → alive c' = some id → c = c'
  /-- an object is destroyed as what it is -/
  destroyed_own : ∀ p ∈ destroyed, placed[p.1]? = some p.2
  /-- no object is destroyed twice -/
  destroyed_once : (destroyed.map Prod.fst).Nodup
  /-- what is destroyed lives no more -/
  destroyed_dead : ∀ c id, alive c = some id → id ∉ destroyed.map Prod.fst
  /-- what is not destroyed lives -/
  complete : ∀ id < placed.length, id ∈ destroyed.map Prod.fst ∨ ∃ c, alive c = some id

variable {placed : List T} {destroyed : List (ℕ × T)} {alive : C → Option ℕ} {c : C}

theorem Ok.empty : Ok ([] : List T) [] (fun _ : C => none) where
  alive_lt := nofun
  alive_inj := nofun
  destroyed_own := nofun
  destroyed_once := List.nodup_nil
  destroyed_dead := nofun
  complete := nofun

variable [DecidableEq C]

/-- What lives in a cell after one of the cells has changed. -/
theorem update_eq_some_iff {c' : C} {x : Option ℕ} {id : ℕ} :
    Function.update alive c x c' = some id ↔
      c' = c ∧ x = some id ∨ c' ≠ c ∧ alive c' = some id := by
  by_cases hcc : c' = c
  · subst hcc
    simp
  · simp [hcc]

/-- An object is placed in an empty cell. -/
theorem Ok.place (h : Ok placed destroyed alive) (hc : alive c = none) (t : T) :
    Ok (placed ++ [t]) destroyed (Function.update alive c (some placed.length)) := by
  have hlen : (placed ++ [t]).length = placed.length + 1 := List.length_append
  -- the new object is none of the old ones
  have hnew : ∀ {c' id}, some placed.length = some id → alive c' ≠ some id := by
    rintro c' id heq halive
    obtain rfl := Option.some.inj heq
    exact Nat.lt_irrefl _ (h.alive_lt c' _ halive)
  have hown : ∀ p ∈ destroyed, p.1 < placed.length :=
    fun p hp => (List.getElem?_eq_some_iff.mp (h.destroyed_own p hp)).1
  refine ⟨?_, ?_, ?_, h.destroyed_once, ?_, ?_⟩
  · intro c' id h'
    rcases update_eq_some_iff.mp h' with ⟨-, heq⟩ | ⟨-, hold⟩
    · obtain rfl := Option.some.inj heq
      omega
    · have hlt := h.alive_lt c' id hold
      omega
  · intro c₁ c₂ id h₁ h₂
    rcases update_eq_some_iff.mp h₁ with ⟨rfl, heq₁⟩ | ⟨-, hold₁⟩ <;>
      rcases update_eq_some_iff.mp h₂ with ⟨rfl, heq₂⟩ | ⟨-, hold₂⟩
    · rfl
    · exact absurd hold₂ (hnew heq₁)
    · exact absurd hold₁ (hnew heq₂)
    · exact h.alive_inj c₁ c₂ id hold₁ hold₂
  · intro p hp
    rw [List.getElem?_append_left (hown p hp)]
    exact h.destroyed_own p hp
  · intro c' id h'
    rcases update_eq_some_iff.mp h' with ⟨-, heq⟩ | ⟨-, hold⟩
    · obtain rfl := Option.some.inj heq
      intro hmem
      obtain ⟨p, hp, hid⟩ := List.mem_map.mp hmem
      exact Nat.lt_irrefl _ (hid ▸ hown p hp)
    · exact h.destroyed_dead c' id hold
  · intro id hid
    rcases Nat.lt_succ_iff_lt_or_eq.mp (hlen ▸ hid) with hlt | rfl
    · refine (h.complete id hlt).imp_right fun ⟨c', hold⟩ => ⟨c', ?_⟩
      have hne : c' ≠ c := by
        rintro rfl
        rw [hc] at hold
        cases hold
      exact update_eq_some_iff.mpr (.inr ⟨hne, hold⟩)
    · exact .inr ⟨c, update_eq_some_iff.mpr (.inl ⟨rfl, rfl⟩)⟩

/-- An object is destroyed as what it is. -/
theorem Ok.destroy (h : Ok placed destroyed alive) {id : ℕ} (hc : alive c = some id) {t : T}
    (ht : placed[id]? = some t) :
    Ok placed (destroyed ++ [(id, t)]) (Function.update alive c none) := by
  -- what lives afterwards lived before, in another cell
  have hrest : ∀ {c' id'}, Function.update alive c none c' = some id' →
      c' ≠ c ∧ alive c' = some id' := by
    intro c' id' h'
    rcases update_eq_some_iff.mp h' with ⟨-, heq⟩ | hold
    · cases heq
    · exact hold
  have hmap : (destroyed ++ [(id, t)]).map Prod.fst = destroyed.map Prod.fst ++ [id] :=
    List.map_append
  refine ⟨?_, ?_, ?_, ?_, ?_, ?_⟩
  · intro c' id' h'
    exact h.alive_lt c' id' (hrest h').2
  · intro c₁ c₂ id' h₁ h₂
    exact h.alive_inj c₁ c₂ id' (hrest h₁).2 (hrest h₂).2
  · intro p hp
    rcases List.mem_append.mp hp with hp | hp
    · exact h.destroyed_own p hp
    · rw [List.mem_singleton.mp hp]
      exact ht
  · rw [hmap, List.nodup_append_comm]
    exact List.nodup_cons.mpr ⟨h.destroyed_dead c id hc, h.destroyed_once⟩
  · intro c' id' h'
    obtain ⟨hne, hold⟩ := hrest h'
    rw [hmap, List.mem_append, List.mem_singleton]
    rintro (hmem | rfl)
    · exact h.destroyed_dead c' id' hold hmem
    · exact hne (h.alive_inj c' c _ hold hc)
  · intro id' hid'
    rw [hmap, List.mem_append, List.mem_singleton]
    rcases h.complete id' hid' with hmem | ⟨c', hold⟩
    · exact .inl (.inl hmem)
    · by_cases hcc : c' = c
      · rw [hcc, hc] at hold
        exact .inl (.inr (Option.some.inj hold).symm)
      · exact .inr ⟨c', update_eq_some_iff.mpr (.inr ⟨hcc, hold⟩)⟩

end Lifetimes
