import CppPlayground.Machine
import CppPlayground.UdpData
import Mathlib.Data.List.GetD

/-!
# The UDP server

The loop of `udp_socket/server.cpp` receives every datagram into the same buffer and prints
what it finds there as a `Data`. It does not look at the number of bytes received. What lies
behind a short datagram are the bytes of earlier ones, or what the buffer happened to hold at
first, and the string is read up to the first zero wherever that is.

So what is printed for a datagram depends on that datagram alone exactly if it carries a zero
somewhere in or behind the identifier (`printsAlone_iff`). Without one, the rest of an earlier
message is printed with it (`identifier_leaked`), or the read runs out of the buffer.
-/

namespace CppPlayground

namespace UdpServer

open UdpData

/-! ## The loop -/

/-- `sizeof(buf)`. -/
def bufSize : ℕ := 0x0ffff

/-- `char buf[0x0ffff]`. -/
structure Buffer : Type where
  bytes : List Byte
  length_eq : bytes.length = bufSize

/-- A datagram, as large as UDP allows. -/
structure Datagram : Type where
  bytes : List Byte
  length_le : bytes.length ≤ bufSize

/-- `recvfrom(sockfd, buf, sizeof(buf), ..)` overwrites the beginning of the buffer. -/
def Buffer.recvfrom (buf : Buffer) (d : Datagram) : Buffer where
  bytes := d.bytes ++ buf.bytes.drop d.bytes.length
  length_eq := by
    rw [List.length_append, List.length_drop, buf.length_eq]
    exact Nat.add_sub_cancel' d.length_le

/-- What is printed for a datagram. -/
structure Report : Type where
  /-- the number in `Received %lu bytes`, which is `sizeof(buf)` -/
  received : ℕ
  /-- the text after it, up to a zero or the end of the buffer -/
  text : List Byte
  /-- `data.identifier` -/
  identifier : List Byte
  /-- `data.version` -/
  version : ℕ
  deriving DecidableEq

/-- The three `printf`s. They are undefined when the string of `connect.identifier` does not
end inside of the buffer. -/
def Buffer.print (buf : Buffer) : Option Report :=
  (cString (buf.bytes.drop identifierOffset)).map fun identifier =>
    { received := bufSize
      text := buf.bytes.takeWhile (· ≠ 0)
      identifier := identifier
      version := versionOf buf.bytes }

/-- The buffer, and what has been printed. -/
structure State : Type where
  buf : Buffer
  printed : List Report

/-- One round of the loop: a datagram, or `-1` from `recvfrom`. There is no next state when
the round is undefined. -/
def step (s : State) : Option Datagram → Option State
  | none => some s
  | some d => (s.buf.recvfrom d).print.map fun report =>
      ⟨s.buf.recvfrom d, s.printed ++ [report]⟩

/-! ## What a datagram shows -/

/-- **What is printed for `d` is a function of its bytes**: after any two histories, from any
initial contents of the buffer, the loop prints the same identifier and version for it. -/
def PrintsAlone (d : Datagram) : Prop :=
  ∀ (buf₁ buf₂ : Buffer) (history₁ history₂ : List (Option Datagram)) (s₁ s₂ : State),
    Machine.run step ⟨buf₁, []⟩ history₁ = some s₁ →
    Machine.run step ⟨buf₂, []⟩ history₂ = some s₂ →
    ∃ r₁ r₂ t₁ t₂, step s₁ (some d) = some t₁ ∧ t₁.printed = s₁.printed ++ [r₁] ∧
      step s₂ (some d) = some t₂ ∧ t₂.printed = s₂.printed ++ [r₂] ∧
      r₁.identifier = r₂.identifier ∧ r₁.version = r₂.version

variable {d : Datagram}

/-- A datagram with a zero behind the version determines what is printed. -/
theorem print_recvfrom (h : 0 ∈ d.bytes.drop identifierOffset) (buf : Buffer) :
    ∃ r, (buf.recvfrom d).print = some r ∧
      r.identifier = (d.bytes.drop identifierOffset).takeWhile (· ≠ 0) ∧
      r.version = versionOf d.bytes := by
  have hlen : identifierOffset < d.bytes.length := by
    by_contra hle
    rw [List.drop_eq_nil_of_le (by omega)] at h
    cases h
  have hstr : cString ((buf.recvfrom d).bytes.drop identifierOffset) =
      some ((d.bytes.drop identifierOffset).takeWhile (· ≠ 0)) := by
    rw [Buffer.recvfrom, List.drop_append_of_le_length (by omega), cString_append_of_mem h,
      cString, if_pos h]
  have hversion : versionOf (buf.recvfrom d).bytes = versionOf d.bytes := by
    have hoff : versionOffset + 1 < d.bytes.length := Nat.lt_trans (by decide) hlen
    rw [versionOf, versionOf, Buffer.recvfrom, List.getD_append _ _ _ _ (by omega),
      List.getD_append _ _ _ _ hoff]
  refine ⟨_, by rw [Buffer.print, hstr]; rfl, rfl, hversion⟩

/-- A buffer without any zero. -/
def ones : Buffer := ⟨List.replicate bufSize 1, List.length_replicate⟩

/-- Without such a zero the string may run out of the buffer. -/
theorem print_ones (h : 0 ∉ d.bytes.drop identifierOffset) :
    (ones.recvfrom d).print = none := by
  have hno : 0 ∉ (ones.recvfrom d).bytes.drop identifierOffset := by
    rw [Buffer.recvfrom, List.drop_append, List.mem_append, not_or]
    refine ⟨h, fun hmem => ?_⟩
    have hone : (0 : Byte) = 1 :=
      (List.mem_replicate.mp (List.mem_of_mem_drop (List.mem_of_mem_drop hmem))).2
    exact absurd hone (by decide)
  rw [Buffer.print, cString_eq_none hno]
  rfl

/-- **When a datagram is reported by itself**: exactly when it has a zero byte at or behind the
offset of `connect.identifier`. -/
theorem printsAlone_iff (d : Datagram) :
    PrintsAlone d ↔ 0 ∈ d.bytes.drop identifierOffset := by
  constructor
  · intro halone
    by_contra h
    obtain ⟨r₁, r₂, t₁, t₂, hstep, -⟩ := halone ones ones [] [] _ _ rfl rfl
    rw [step, print_ones h] at hstep
    cases hstep
  · intro h buf₁ buf₂ history₁ history₂ s₁ s₂ _ _
    obtain ⟨r₁, hr₁, hid₁, hver₁⟩ := print_recvfrom h s₁.buf
    obtain ⟨r₂, hr₂, hid₂, hver₂⟩ := print_recvfrom h s₂.buf
    refine ⟨r₁, r₂, _, _, by rw [step, hr₁]; rfl, rfl, by rw [step, hr₂]; rfl, rfl, ?_, ?_⟩
    · rw [hid₁, hid₂]
    · rw [hver₁, hver₂]

/-! ## What shows through -/

/-- The identifier takes with it what lies in the buffer between the datagram and the next
zero. -/
theorem print_leftover (h : 0 ∉ d.bytes.drop identifierOffset) {buf : Buffer}
    {tail rest : List Byte} (htail : 0 ∉ tail)
    (hbuf : buf.bytes.drop (d.bytes.length + (identifierOffset - d.bytes.length)) =
      tail ++ 0 :: rest) :
    ∃ r, (buf.recvfrom d).print = some r ∧
      r.identifier = d.bytes.drop identifierOffset ++ tail := by
  have hstr : cString ((buf.recvfrom d).bytes.drop identifierOffset) =
      some (d.bytes.drop identifierOffset ++ tail) := by
    have hno : 0 ∉ d.bytes.drop identifierOffset ++ tail := by
      rw [List.mem_append, not_or]
      exact ⟨h, htail⟩
    rw [Buffer.recvfrom, List.drop_append, List.drop_drop, hbuf, ← List.append_assoc,
      cString_append_zero hno]
  exact ⟨_, by rw [Buffer.print, hstr]; rfl, rfl⟩

/-- A buffer of zeros. -/
def zeros : Buffer := ⟨List.replicate bufSize 0, List.length_replicate⟩

theorem zeros_drop {n : ℕ} (h : n < bufSize) :
    zeros.bytes.drop n = 0 :: List.replicate (bufSize - n - 1) 0 := by
  rw [zeros, List.drop_replicate, ← List.replicate_succ, Nat.sub_add_cancel (by omega)]

/-- A buffer of ones with a zero at its end. -/
def onesThenZero : Buffer where
  bytes := List.replicate (bufSize - 1) 1 ++ [0]
  length_eq := by
    rw [List.length_append, List.length_replicate, List.length_singleton]
    rfl

theorem onesThenZero_drop {n : ℕ} (h : n < bufSize) :
    onesThenZero.bytes.drop n = List.replicate (bufSize - 1 - n) 1 ++ [0] := by
  rw [onesThenZero, List.drop_append_of_le_length, List.drop_replicate]
  rw [List.length_replicate]
  omega

/-- **Two histories show through**: a datagram without such a zero that leaves at least two
bytes of the buffer alone is printed with different identifiers. -/
theorem prints_differently (h : 0 ∉ d.bytes.drop identifierOffset)
    (hlen : d.bytes.length + 2 ≤ bufSize) :
    ∃ (buf₁ buf₂ : Buffer) (r₁ r₂ : Report), (buf₁.recvfrom d).print = some r₁ ∧
      (buf₂.recvfrom d).print = some r₂ ∧ r₁.identifier ≠ r₂.identifier := by
  have hoff : d.bytes.length + (identifierOffset - d.bytes.length) + 1 < bufSize := by
    have : identifierOffset + 1 < bufSize := by decide
    omega
  obtain ⟨r₁, hr₁, hid₁⟩ := print_leftover h List.not_mem_nil (zeros_drop (by omega))
  have hones : 0 ∉ List.replicate
      (bufSize - 1 - (d.bytes.length + (identifierOffset - d.bytes.length))) (1 : Byte) :=
    fun hmem => absurd (List.mem_replicate.mp hmem).2 (by decide)
  obtain ⟨r₂, hr₂, hid₂⟩ := print_leftover h hones (onesThenZero_drop (by omega))
  refine ⟨zeros, onesThenZero, r₁, r₂, hr₁, hr₂, fun heq => ?_⟩
  -- the second identifier is longer
  have hlens := congrArg List.length heq
  rw [hid₁, hid₂, List.length_append, List.length_append, List.length_replicate,
    List.length_nil] at hlens
  omega

/-- A message with version 7 and the identifier `secret`. -/
def secret : Datagram := ⟨[0, 0, 0, 0, 7, 0, 115, 101, 99, 114, 101, 116, 0], by decide⟩

/-- A message with version 7 and the identifier `a`, cut off before its terminator. -/
def cutOff : Datagram := ⟨[0, 0, 0, 0, 7, 0, 97], by decide⟩

/-- **A leak**: after `secret` the datagram `cutOff` is printed as `aecret`, at first as
`a`. -/
theorem identifier_leaked :
    ∃ s r₁ r₂, Machine.run step ⟨zeros, []⟩ [some secret] = some s ∧
      (s.buf.recvfrom cutOff).print = some r₁ ∧ r₁.identifier = [97, 101, 99, 114, 101, 116] ∧
      (zeros.recvfrom cutOff).print = some r₂ ∧ r₂.identifier = [97] ∧ ¬ PrintsAlone cutOff := by
  have hcut : 0 ∉ cutOff.bytes.drop identifierOffset := by decide
  obtain ⟨r, hr, -⟩ := print_recvfrom (d := secret) (by decide) zeros
  have hdrop : (zeros.recvfrom secret).bytes.drop
      (cutOff.bytes.length + (identifierOffset - cutOff.bytes.length)) =
        [101, 99, 114, 101, 116] ++ 0 :: zeros.bytes.drop secret.bytes.length := rfl
  obtain ⟨r₁, hr₁, hid₁⟩ := print_leftover hcut (by decide) hdrop
  obtain ⟨r₂, hr₂, hid₂⟩ := print_leftover hcut List.not_mem_nil
    (zeros_drop (n := cutOff.bytes.length + (identifierOffset - cutOff.bytes.length)) (by decide))
  have hrun : Machine.run step ⟨zeros, []⟩ [some secret] =
      some ⟨zeros.recvfrom secret, [r]⟩ := by
    rw [Machine.run_cons, step, hr]
    rfl
  refine ⟨⟨zeros.recvfrom secret, [r]⟩, r₁, r₂, hrun, hr₁, hid₁, hr₂, hid₂, fun halone => ?_⟩
  obtain ⟨q₁, q₂, t₁, t₂, h₁, hq₁, h₂, hq₂, hid, -⟩ := halone _ _ _ [] _ _ hrun rfl
  rw [step, hr₁] at h₁
  cases h₁
  rw [step, hr₂] at h₂
  cases h₂
  obtain rfl : r₁ = q₁ := List.singleton_inj.mp (List.append_cancel_left hq₁)
  obtain rfl : r₂ = q₂ := List.singleton_inj.mp hq₂
  rw [hid₁, hid₂] at hid
  exact absurd hid (by decide)

end UdpServer

end CppPlayground
