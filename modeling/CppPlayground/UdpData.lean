import Mathlib.Data.List.Basic
import Mathlib.Data.List.TakeWhile
import Mathlib.Tactic.Common

/-!
# The message of the UDP examples

`Data` (`udp_socket/data.h`) is sent as it lies in memory: `message_type` in four bytes, then,
packed behind it, the union of which the examples use `connect`, a `uint16_t` and an array of
15 characters. Multi-byte numbers are little endian.
-/

namespace CppPlayground

namespace UdpData

/-- A `char`, signed or not. -/
abbrev Byte : Type := UInt8

/-- The offset of `connect.version`. -/
def versionOffset : ℕ := 4

/-- The offset of `connect.identifier`. -/
def identifierOffset : ℕ := 6

/-- `std::size(connect.identifier)`. -/
def identifierSize : ℕ := 15

/-- `sizeof(Data)`; the largest member of the union is `payload`. -/
def dataSize : ℕ := 28

/-- A string from its first character up to the terminating zero, `none` if the bytes have
none. -/
def cString (bytes : List Byte) : Option (List Byte) :=
  if 0 ∈ bytes then some (bytes.takeWhile (· ≠ 0)) else none

/-- The value of `connect.version`. -/
def versionOf (bytes : List Byte) : ℕ :=
  (bytes.getD versionOffset 0).toNat + 256 * (bytes.getD (versionOffset + 1) 0).toNat

/-! ## Strings -/

/-- The scan stops at the first zero, whatever follows. -/
theorem cString_append_of_mem {bytes : List Byte} (h : 0 ∈ bytes) (rest : List Byte) :
    cString (bytes ++ rest) = cString bytes := by
  have htake : (bytes ++ rest).takeWhile (· ≠ 0) = bytes.takeWhile (· ≠ 0) := by
    induction bytes with
    | nil => cases h
    | cons c bytes ih =>
      by_cases hc : c = 0
      · simp [hc]
      · have hmem : 0 ∈ bytes := (List.mem_cons.mp h).resolve_left fun h0 => hc h0.symm
        simpa [hc] using ih hmem
  rw [cString, cString, if_pos h, if_pos (List.mem_append_left _ h), htake]

theorem cString_append_zero {bytes : List Byte} (h : 0 ∉ bytes) (rest : List Byte) :
    cString (bytes ++ 0 :: rest) = some bytes := by
  have hall : ∀ c ∈ bytes, decide (c ≠ 0) = true := by
    intro c hc
    exact decide_eq_true fun h0 => h (h0 ▸ hc)
  rw [cString, if_pos (by simp), List.takeWhile_append_of_pos hall, List.takeWhile_cons_of_neg]
  · rw [List.append_nil]
  · simp

theorem cString_eq_none {bytes : List Byte} (h : 0 ∉ bytes) : cString bytes = none := if_neg h

end UdpData

end CppPlayground
