import Mathlib.Algebra.Order.Ring.Nat
import Mathlib.Data.Nat.Notation

/-!
# A vector in a buffer that is never given back

`dynamic_memory_allocation/pmr.cpp` fills a vector whose memory comes from a buffer of fixed size.
A monotonic resource hands its buffer out from front to back and takes nothing back; when a request
does not fit, it asks its upstream resource, and the one of this program throws.

A vector that is full doubles its capacity and leaves the old elements' memory behind. So after
`k` reallocations the buffer holds arrays of `n`, `2n`, up to `2^k n` elements, and
`pushes_isSome_iff` says how many elements can be pushed. The numbers of the source are one case
(`main_throws`): the exception comes at `i == 77`, as its comment derives, wherever `storage` lies
in memory.
-/

namespace CppPlayground

namespace MonotonicBuffer

/-! ## The resource and the vector -/

/-- `std::pmr::monotonic_buffer_resource` on a buffer, without upstream memory. -/
structure Resource where
  /-- the address of the buffer -/
  base : ℕ
  /-- its size in bytes -/
  size : ℕ
  /-- how much of it has been handed out -/
  used : ℕ
  deriving DecidableEq, Repr

/-- The bytes that are left out in front of an aligned address. -/
def padding (address align : ℕ) : ℕ := (align - address % align) % align

/-- `allocate`; `none` if the upstream resource throws. -/
def Resource.allocate (r : Resource) (bytes align : ℕ) : Option Resource :=
  let used := r.used + padding (r.base + r.used) align + bytes
  if used ≤ r.size then some { r with used := used } else none

/-- `sizeof(int)`, which is also its alignment. -/
def intSize : ℕ := 4

/-- `std::pmr::vector<int>` with its resource. -/
structure Vector where
  size : ℕ
  capacity : ℕ
  resource : Resource
  deriving DecidableEq, Repr

/-- The vector of a list of `n` elements. -/
def Vector.new (n : ℕ) (r : Resource) : Option Vector :=
  (r.allocate (n * intSize) intSize).map fun r => ⟨n, n, r⟩

/-- `push_back`. The memory of the old elements is given back to the resource, which does nothing
with it. -/
def Vector.pushBack (v : Vector) : Option Vector :=
  if v.size < v.capacity then some { v with size := v.size + 1 }
  else
    let capacity := v.size + max v.size 1
    (v.resource.allocate (capacity * intSize) intSize).map fun r => ⟨v.size + 1, capacity, r⟩

/-- The resource on `storage`, which lies at some address. -/
def storage (base : ℕ) : Resource := ⟨base, 1000, 0⟩

/-- The loop of `main`, `m` times. -/
def pushes : ℕ → Vector → Option Vector
  | 0, v => some v
  | m + 1, v => (pushes m v).bind Vector.pushBack

/-! ## What has been handed out -/

variable {n m k : ℕ} {r : Resource} {v v' : Vector}

/-- After `k` reallocations of a vector of `n` elements. -/
structure After (n : ℕ) (r : Resource) (k : ℕ) (v : Vector) : Prop where
  capacity : v.capacity = n * 2 ^ k
  size : v.size ≤ v.capacity
  /-- the last reallocation was needed -/
  needed : ∀ j < k, n * 2 ^ j < v.size
  base : v.resource.base = r.base
  bufferSize : v.resource.size = r.size
  used : v.resource.used + n * intSize = r.used + padding (r.base + r.used) intSize +
    n * 2 ^ (k + 1) * intSize

/-- Behind an aligned block of whole elements nothing is left out. -/
theorem padding_eq_zero {a : ℕ} (h : a % intSize = 0) : padding a intSize = 0 := by
  rw [padding, h]
  rfl

theorem padding_aligned (a : ℕ) : (a + padding a intSize) % intSize = 0 := by
  simp only [padding, intSize]
  omega

theorem After.padding (h : After n r k v) :
    MonotonicBuffer.padding (v.resource.base + v.resource.used) intSize = 0 := by
  refine padding_eq_zero ?_
  have haligned := padding_aligned (r.base + r.used)
  have hused := h.used
  have hbase := h.base
  simp only [intSize] at *
  omega

/-- The buffer has room for arrays of `n`, `2n`, up to `2^k n` elements. -/
def Room (n : ℕ) (r : Resource) (k : ℕ) : Prop :=
  r.used + MonotonicBuffer.padding (r.base + r.used) intSize +
    n * (2 ^ (k + 1) - 1) * intSize ≤ r.size

instance (n : ℕ) (r : Resource) (k : ℕ) : Decidable (Room n r k) :=
  inferInstanceAs (Decidable (_ ≤ _))

theorem elements_eq (n k : ℕ) : n * (2 ^ (k + 1) - 1) + n = n * 2 ^ (k + 1) := by
  have hpos : 1 ≤ 2 ^ (k + 1) := Nat.one_le_two_pow
  calc n * (2 ^ (k + 1) - 1) + n = n * (2 ^ (k + 1) - 1 + 1) := (Nat.mul_succ ..).symm
    _ = n * 2 ^ (k + 1) := by rw [Nat.sub_add_cancel hpos]

theorem after_new (h : Vector.new n r = some v) : After n r 0 v := by
  rw [Vector.new, Resource.allocate] at h
  split at h
  · obtain rfl := Option.some.inj h
    refine ⟨by simp, le_rfl, fun j hj => absurd hj (Nat.not_lt_zero j), rfl, rfl, ?_⟩
    simp only [Nat.zero_add, Nat.pow_one, intSize]
    omega
  · cases h

theorem Vector.new_size (h : Vector.new n r = some v) : v.size = n := by
  obtain ⟨r', -, rfl⟩ := Option.map_eq_some_iff.mp h
  rfl

theorem After.push_in_place (h : After n r k v) (hlt : v.size < v.capacity) :
    ∃ v', v.pushBack = some v' ∧ After n r k v' ∧ v'.size = v.size + 1 := by
  refine ⟨{ v with size := v.size + 1 }, if_pos hlt, ?_, rfl⟩
  exact { h with size := hlt, needed := fun j hj => Nat.lt_succ_of_lt (h.needed j hj) }

theorem two_mul_elements (n k : ℕ) : n * 2 ^ (k + 1) = n * 2 ^ k + n * 2 ^ k := by
  rw [Nat.pow_succ, ← Nat.mul_assoc, Nat.mul_two]

/-- A full vector gets the next array if there is room for it. -/
theorem After.pushBack_full (h : After n r k v) (hn : 0 < n) (hfull : v.size = v.capacity) :
    v.pushBack =
      if Room n r (k + 1) then
        some ⟨v.size + 1, n * 2 ^ (k + 1),
          { v.resource with used := v.resource.used + n * 2 ^ (k + 1) * intSize }⟩
      else none := by
  have hsize : v.size = n * 2 ^ k := hfull.trans h.capacity
  have hpos : 1 ≤ v.size := hsize ▸ Nat.mul_pos hn (Nat.two_pow_pos k)
  have hcapacity : v.size + max v.size 1 = n * 2 ^ (k + 1) := by
    rw [Nat.max_eq_left hpos, two_mul_elements, hsize]
  have hroom : v.resource.used + n * 2 ^ (k + 1) * intSize ≤ v.resource.size ↔
      Room n r (k + 1) := by
    have hused := h.used
    have hnext := elements_eq n (k + 1)
    have htwice := two_mul_elements n (k + 1)
    rw [Room, h.bufferSize]
    simp only [intSize] at *
    omega
  rw [Vector.pushBack, if_neg (by omega)]
  simp only [hcapacity, Resource.allocate, h.padding, Nat.add_zero, hroom]
  split <;> rfl

theorem After.push_grow (h : After n r k v) (hn : 0 < n) (hfull : v.size = v.capacity)
    (hroom : Room n r (k + 1)) :
    ∃ v', v.pushBack = some v' ∧ After n r (k + 1) v' ∧ v'.size = v.size + 1 := by
  have hsize : v.size = n * 2 ^ k := hfull.trans h.capacity
  have hused := h.used
  have htwice := two_mul_elements n (k + 1)
  rw [h.pushBack_full hn hfull, if_pos hroom]
  refine ⟨_, rfl, ⟨rfl, ?_, fun j hj => ?_, h.base, h.bufferSize, ?_⟩, rfl⟩
  · have hlt : n * 2 ^ k < n * 2 ^ (k + 1) :=
      Nat.mul_lt_mul_of_pos_left (Nat.pow_lt_pow_succ (by decide)) hn
    exact hsize ▸ hlt
  · have hle : n * 2 ^ j ≤ n * 2 ^ k :=
      Nat.mul_le_mul_left n (Nat.pow_le_pow_right (by decide) (Nat.le_of_lt_succ hj))
    exact Nat.lt_succ_of_le (hsize ▸ hle)
  · simp only [intSize] at *
    omega

/-! ## How many elements can be pushed -/

/-- As long as there is room for every array that is needed, -/
theorem pushes_of_room (hn : 0 < n) (hnew : Vector.new n r = some v)
    (hroom : ∀ j, n * 2 ^ j < n + m → Room n r (j + 1)) :
    ∃ k v', pushes m v = some v' ∧ After n r k v' ∧ v'.size = n + m := by
  induction m with
  | zero => exact ⟨0, v, rfl, after_new hnew, Vector.new_size hnew⟩
  | succ m ih =>
    obtain ⟨k, v₁, hpushes, hafter, hsize⟩ := ih fun j hj => hroom j (by omega)
    rw [pushes, hpushes, Option.bind_some]
    by_cases hlt : v₁.size < v₁.capacity
    · obtain ⟨v', hv', hafter', hsize'⟩ := hafter.push_in_place hlt
      exact ⟨k, v', hv', hafter', by omega⟩
    · have hfull : v₁.size = v₁.capacity := Nat.le_antisymm hafter.size (Nat.not_lt.mp hlt)
      have hcapacity := hafter.capacity
      obtain ⟨v', hv', hafter', hsize'⟩ := hafter.push_grow hn hfull (hroom k (by omega))
      exact ⟨k + 1, v', hv', hafter', by omega⟩

/-- and not one element further. -/
theorem room_of_pushes (hn : 0 < n) (hnew : Vector.new n r = some v)
    (hpushes : (pushes m v).isSome = true) : ∀ j, n * 2 ^ j < n + m → Room n r (j + 1) := by
  induction m with
  | zero =>
    intro j hj
    have hle : n ≤ n * 2 ^ j := Nat.le_mul_of_pos_right n (Nat.two_pow_pos j)
    omega
  | succ m ih =>
    intro j hj
    obtain ⟨v', hv'⟩ := Option.isSome_iff_exists.mp hpushes
    obtain ⟨v₁, hv₁, hpush⟩ := Option.bind_eq_some_iff.mp hv'
    have hroom := ih (by rw [hv₁]; rfl)
    by_cases hlt : n * 2 ^ j < n + m
    · exact hroom j hlt
    · obtain ⟨k, v₂, hv₂, hafter, hsize⟩ := pushes_of_room hn hnew hroom
      obtain rfl := Option.some.inj (hv₁.symm.trans hv₂)
      -- this element is the first one that does not fit into the array of the vector
      have hfull : v₁.size = n * 2 ^ j := by omega
      have hle : k ≤ j := by
        by_contra hjk
        exact absurd (hafter.needed j (Nat.not_le.mp hjk)) (by omega)
      have hge : n * 2 ^ j ≤ n * 2 ^ k := by
        have hsize' := hafter.size
        have hcapacity := hafter.capacity
        omega
      have hjk : j = k := by
        refine Nat.le_antisymm ?_ hle
        exact (Nat.pow_le_pow_iff_right (by decide)).mp (Nat.le_of_mul_le_mul_left hge hn)
      subst hjk
      by_contra hnot
      rw [hafter.pushBack_full hn (hfull.trans hafter.capacity.symm), if_neg hnot] at hpush
      cases hpush

/-- **How far it goes.** A vector of `n` elements takes `m` more of them exactly if the buffer has
room for all the arrays that this needs, the memory of the outgrown ones included. -/
theorem pushes_isSome_iff (hn : 0 < n) (hnew : Vector.new n r = some v) :
    (pushes m v).isSome = true ↔ ∀ j, n * 2 ^ j < n + m → Room n r (j + 1) := by
  refine ⟨room_of_pushes hn hnew, fun hroom => ?_⟩
  obtain ⟨k, v', hv', -⟩ := pushes_of_room hn hnew hroom
  rw [hv']
  rfl

theorem pushes_isSome_iff_storage :
    ∃ v, Vector.new 11 (storage 0) = some v ∧
      ((pushes 77 v).isSome = true ↔ ∀ j, 11 * 2 ^ j < 11 + 77 → Room 11 (storage 0) (j + 1)) :=
  ⟨_, rfl, pushes_isSome_iff (by decide) rfl⟩

/-- **At `i == 77`.** Wherever `storage` lies, the first 77 elements are pushed and the next one
throws. -/
theorem main_throws (base : ℕ) :
    ∃ v, Vector.new 11 (storage base) = some v ∧ (pushes 77 v).isSome = true ∧
      pushes 78 v = none := by
  have hpad : padding base intSize < 4 := Nat.mod_lt _ (by decide)
  obtain ⟨v, hv⟩ : ∃ v, Vector.new 11 (storage base) = some v := by
    refine ⟨_, congrArg _ (if_pos ?_)⟩
    simp only [storage, intSize, Nat.zero_add, Nat.add_zero] at *
    omega
  refine ⟨v, hv, ?_, ?_⟩
  · obtain ⟨k, v', hv', -⟩ := pushes_of_room (m := 77) (by decide) hv fun j hj => by
      have hj : j < 3 := by
        by_contra hge
        have hpow : 2 ^ 3 ≤ 2 ^ j := Nat.pow_le_pow_right (by decide) (Nat.not_lt.mp hge)
        omega
      have hle : 2 ^ (j + 1 + 1) ≤ 2 ^ 4 := Nat.pow_le_pow_right (by decide) (by omega)
      simp only [Room, storage, intSize, Nat.zero_add, Nat.add_zero] at *
      omega
    rw [hv']
    rfl
  · by_contra hne
    have hroom := room_of_pushes (by decide) hv (Option.isSome_iff_ne_none.mpr hne) 3 (by decide)
    simp only [Room, storage, intSize, Nat.zero_add, Nat.add_zero] at hroom
    omega

end MonotonicBuffer

end CppPlayground
