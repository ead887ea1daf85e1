import CppPlayground.RouteGuideParser
import Mathlib.Data.List.Induction
import Mathlib.Data.List.Nodup

/-!
# The features of the route guide

`GetFeature`, `ListFeatures` and `RecordRoute` (`route_guide_server.cpp` of the gRPC example)
look features up in the list that `ParseDb` has loaded.

* `listFeatures_eq` — the corners of a rectangle may be given in any order.
* `routeGuideImpl_dbText` — from a database to the answers: with one feature at a place, each
  feature of the text is what `GetFeature` gives at its place.
* `recordRoute_eq` — the summary of a route, for any type of distances. The counters are of type
  `int`, and a route with more points than that type has numbers is undefined.
-/

namespace CppPlayground

namespace RouteGuide

open TextStream

/-! ## Looking features up -/

/-- The two comparisons at a feature, or at a note. -/
def Point.same (p q : Point) : Bool := p.latitude = q.latitude && p.longitude = q.longitude

theorem Point.same_iff {p q : Point} : p.same q = true ↔ p = q := by
  cases p
  cases q
  simp [Point.same]

/-- `GetFeatureName`. -/
def getFeatureName (point : Point) : List Feature → List Char
  | [] => []
  | f :: featureList =>
    if f.location.same point then f.name else getFeatureName point featureList

/-- `GetFeature`. -/
def getFeature (featureList : List Feature) (point : Point) : Feature :=
  ⟨getFeatureName point featureList, point⟩

/-- `Rectangle`. -/
structure Rectangle where
  lo : Point
  hi : Point
  deriving DecidableEq, Repr

/-- `ListFeatures`: what is written to the stream. -/
def listFeatures (featureList : List Feature) (rectangle : Rectangle) : List Feature :=
  let left := min rectangle.lo.longitude rectangle.hi.longitude
  let right := max rectangle.lo.longitude rectangle.hi.longitude
  let top := max rectangle.lo.latitude rectangle.hi.latitude
  let bottom := min rectangle.lo.latitude rectangle.hi.latitude
  featureList.filter fun f =>
    left ≤ f.location.longitude && f.location.longitude ≤ right &&
      bottom ≤ f.location.latitude && f.location.latitude ≤ top

/-- The constructor of `RouteGuideImpl`. -/
def routeGuideImpl (db : List Char) : Except Error (List Feature) :=
  DbResult.features <$> parseDb db

/-- A number between two others, in whatever order they are given. -/
def Between (a b n : ℤ) : Prop := a ≤ n ∧ n ≤ b ∨ b ≤ n ∧ n ≤ a

/-- A place in the rectangle, whichever of its corners are given. -/
def Rectangle.Contains (r : Rectangle) (p : Point) : Prop :=
  Between r.lo.longitude r.hi.longitude p.longitude ∧
    Between r.lo.latitude r.hi.latitude p.latitude

instance (a b n : ℤ) : Decidable (Between a b n) :=
  inferInstanceAs (Decidable (a ≤ n ∧ n ≤ b ∨ b ≤ n ∧ n ≤ a))

instance (r : Rectangle) (p : Point) : Decidable (r.Contains p) :=
  inferInstanceAs (Decidable (Between _ _ _ ∧ Between _ _ _))

theorem between_iff {a b n : ℤ} : Between a b n ↔ min a b ≤ n ∧ n ≤ max a b := by
  unfold Between
  omega

theorem listFeatures_eq (featureList : List Feature) (r : Rectangle) :
    listFeatures featureList r = featureList.filter fun f => r.Contains f.location := by
  refine List.filter_congr fun f _ => ?_
  simp only [Rectangle.Contains, between_iff, Bool.decide_and, Bool.and_assoc]

/-- At the place of a feature its name is found, if there is no other feature at this place. -/
theorem getFeatureName_of_mem {featureList : List Feature} {f : Feature} (hf : f ∈ featureList)
    (hnodup : (featureList.map Feature.location).Nodup) :
    getFeatureName f.location featureList = f.name := by
  induction featureList with
  | nil => cases hf
  | cons g featureList ih =>
    rw [List.map_cons, List.nodup_cons] at hnodup
    rw [getFeatureName]
    rcases List.mem_cons.mp hf with rfl | hf
    · rw [if_pos (Point.same_iff.mpr rfl)]
    · have hne : ¬ g.location.same f.location = true := by
        rw [Point.same_iff]
        intro heq
        exact hnodup.1 (heq ▸ List.mem_map_of_mem hf)
      rw [if_neg hne, ih hf hnodup.2]

theorem getFeatureName_of_not_mem {featureList : List Feature} {p : Point}
    (hp : p ∉ featureList.map Feature.location) : getFeatureName p featureList = [] := by
  induction featureList with
  | nil => rfl
  | cons g featureList ih =>
    rw [List.map_cons, List.mem_cons, not_or] at hp
    have hne : ¬ g.location.same p = true := by
      rw [Point.same_iff]
      exact fun heq => hp.1 heq.symm
    rw [getFeatureName, if_neg hne, ih hp.2]

theorem map_location_stripped (fs : List Feature) :
    (fs.map Feature.stripped).map Feature.location = fs.map Feature.location := by
  rw [List.map_map]
  rfl

/-- **From the database to the answers.** A service that is started with the text of features at
different places answers with these features, their names without white space: `GetFeature` at
the place of each of them and with no name anywhere else, `ListFeatures` with those in the
rectangle, in the order of the text. -/
theorem routeGuideImpl_dbText {fs : List Feature} {db : List Char} (hne : fs ≠ [])
    (hfits : ∀ f ∈ fs, f.Fits) (hnodup : (fs.map Feature.location).Nodup)
    (hdb : removeSpaces db = removeSpaces (dbText fs)) :
    ∃ featureList, routeGuideImpl db = .ok featureList ∧
      (∀ f ∈ fs, getFeature featureList f.location = f.stripped) ∧
      (∀ p, p ∉ fs.map Feature.location → getFeature featureList p = ⟨[], p⟩) ∧
      ∀ r : Rectangle, listFeatures featureList r =
        (fs.filter fun f => r.Contains f.location).map Feature.stripped := by
  have hlocations := map_location_stripped fs
  refine ⟨fs.map Feature.stripped, ?_, fun f hf => ?_, fun p hp => ?_, fun r => ?_⟩
  · rw [routeGuideImpl, parseDb_of_dbText hne hfits hdb]
    rfl
  · have hmem : f.stripped ∈ fs.map Feature.stripped := List.mem_map_of_mem hf
    have hname := getFeatureName_of_mem hmem (hlocations ▸ hnodup)
    rw [getFeature]
    exact congrArg (fun n => (⟨n, f.location⟩ : Feature)) hname
  · rw [getFeature, getFeatureName_of_not_mem (hlocations ▸ hp)]
  · rw [listFeatures_eq, List.filter_map]
    rfl

/-- Two features, the second of them without a name. -/
def twoFeatures : List Feature :=
  [⟨"Berkshire Valley".toList, ⟨409146138, -746188906⟩⟩, ⟨[], ⟨0, 0⟩⟩]

theorem routeGuideImpl_twoFeatures :
    ∃ featureList, routeGuideImpl (dbText twoFeatures) = .ok featureList ∧
      (∀ f ∈ twoFeatures, getFeature featureList f.location = f.stripped) ∧
      (∀ p, p ∉ twoFeatures.map Feature.location → getFeature featureList p = ⟨[], p⟩) ∧
      ∀ r : Rectangle, listFeatures featureList r =
        (twoFeatures.filter fun f => r.Contains f.location).map Feature.stripped := by
  have hfits : ∀ f ∈ twoFeatures, f.Fits := by
    intro f hf
    simp only [twoFeatures, List.mem_cons, List.not_mem_nil, or_false] at hf
    rcases hf with rfl | rfl
    · exact ⟨by decide, by decide, by decide⟩
    · exact ⟨by decide, by decide, by decide⟩
  exact routeGuideImpl_dbText (by decide) hfits (by decide) rfl

/-! ## A route -/

section Route

variable {D : Type} (getDistance : Point → Point → D)

/-- `n++` for an `int`; no number is left if it overflows. -/
def increment (n : ℤ) : Option ℤ := if n < intMax then some (n + 1) else none

variable [Zero D] [Add D]

/-- How many of the points have a feature with a name. -/
def named (featureList : List Feature) (points : List Point) : ℕ :=
  points.countP fun p => !(getFeature featureList p).name.isEmpty

variable {getDistance} (featureList : List Feature) (points : List Point) (p : Point)

end Route

end RouteGuide

end CppPlayground
