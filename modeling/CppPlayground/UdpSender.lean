import CppPlayground.UdpData
import Mathlib.Data.List.GetD

/-!
# The UDP sender

`udp_socket/client_and_server.cpp` fills a `Data` with a version and an identifier and sends
it. It refuses an identifier that is *longer* than the array `connect.identifier`. But `strcpy`
also writes the terminator, which for an identifier as long as the array comes to lie behind
it, in the padding of `connect`. Inside of the field there is then no terminator left.

All other identifiers arrive (`survives_iff`). The program itself does not notice, since it
reads the string on into the padding (`print_sent`).
-/

namespace CppPlayground

namespace UdpSender

open UdpData

/-! ## Sending -/

/-- The object at `data`, as bytes, with `bytes` stored at an offset. -/
def store (mem : List Byte) (offset : ℕ) (bytes : List Byte) : List Byte :=
  mem.take offset ++ bytes ++ mem.drop (offset + bytes.length)

/-- A `uint16_t` in memory. -/
def uint16 (v : UInt16) : List Byte := [v.toUInt8, (v >>> 8).toUInt8]

/-- `calloc(1, sizeof(Data))`. -/
def calloc : List Byte := List.replicate dataSize 0

/-- What `strcpy` writes for `identifier.c_str()`: the characters up to the first zero and a
zero. -/
def strcpyBytes (identifier : List Byte) : List Byte := identifier.takeWhile (· ≠ 0) ++ [0]

/-- The offsets in `Data` that `strcpy` writes to. -/
def strcpyOffsets (identifier : List Byte) : List ℕ :=
  (List.range (strcpyBytes identifier).length).map fun k => identifierOffset + k

/-- The sender: the bytes given to `sendto`, or `none` for `identifier too long`. The type
`MSG_START` is 0. -/
def send (identifier : List Byte) (version : UInt16) : Option (List Byte) :=
  if identifier.length > identifierSize then none
  else
    let data := store calloc 0 [0, 0, 0, 0]
    let data := store data versionOffset (uint16 version)
    some (store data identifierOffset (strcpyBytes identifier))

/-! ## Decoding -/

/-- `connect.version` and `connect.identifier`, the latter as a string that ends in its
field. -/
def decode (data : List Byte) : ℕ × Option (List Byte) :=
  (versionOf data, cString ((data.drop identifierOffset).take identifierSize))

/-- What the receiver prints: it reads `connect.identifier` up to the first zero of the
object. -/
def print (data : List Byte) : Option (List Byte) × ℕ :=
  (cString (data.drop identifierOffset), versionOf data)

/-- **An accepted message survives**: `strcpy` writes bytes of `connect.identifier` only, and
decoding gives back what was sent. -/
def Survives (identifier : List Byte) (version : UInt16) : Prop :=
  ∀ data, send identifier version = some data →
    (∀ offset ∈ strcpyOffsets identifier,
      identifierOffset ≤ offset ∧ offset < identifierOffset + identifierSize) ∧
    decode data = (version.toNat, some identifier)

variable {identifier : List Byte} {version : UInt16}

theorem strcpyBytes_eq (h : 0 ∉ identifier) : strcpyBytes identifier = identifier ++ [0] := by
  have hall : ∀ c ∈ identifier, decide (c ≠ 0) = true := by
    intro c hc
    exact decide_eq_true fun h0 => h (h0 ▸ hc)
  rw [strcpyBytes, List.takeWhile_eq_self_iff.mpr hall]

/-- What stands before the identifier. -/
def header (version : UInt16) : List Byte := [0, 0, 0, 0] ++ uint16 version

/-- The message as it is sent. -/
theorem send_eq (h : 0 ∉ identifier) (hlen : identifier.length ≤ identifierSize) :
    send identifier version =
      some (header version ++ (identifier ++ [0]) ++
        List.replicate (dataSize - identifierOffset - (identifier.length + 1)) 0) := by
  have hdata : store (store calloc 0 [0, 0, 0, 0]) versionOffset (uint16 version) =
      header version ++ List.replicate (dataSize - identifierOffset) 0 := rfl
  have hheader : (header version).length = identifierOffset := rfl
  rw [send, if_neg (by omega), strcpyBytes_eq h]
  dsimp only
  rw [hdata, store, List.take_left' hheader,
    ← List.drop_drop, List.drop_left' hheader, List.drop_replicate, List.length_append,
    List.length_singleton]

theorem send_too_long (hlen : identifierSize < identifier.length) :
    send identifier version = none := if_pos hlen

theorem versionOf_header (version : UInt16) (rest : List Byte) :
    versionOf (header version ++ rest) = version.toNat := by
  have hlow : ((header version ++ rest).getD versionOffset 0).toNat = version.toNat % 2 ^ 8 :=
    UInt16.toNat_toUInt8 version
  have hhigh : ((header version ++ rest).getD (versionOffset + 1) 0).toNat =
      (version >>> 8).toNat % 2 ^ 8 := UInt16.toNat_toUInt8 (version >>> 8)
  have hshift : (version >>> 8).toNat = version.toNat / 2 ^ 8 := by
    rw [UInt16.toNat_shiftRight, Nat.shiftRight_eq_div_pow]
    rfl
  have hlt := UInt16.toNat_lt version
  rw [versionOf, hlow, hhigh, hshift]
  omega

/-- An identifier that leaves room for the terminator is found in its field, -/
theorem decode_sent (h : 0 ∉ identifier) (hlen : identifier.length < identifierSize)
    (rest : List Byte) :
    decode (header version ++ (identifier ++ [0]) ++ rest) = (version.toNat, some identifier) := by
  have hheader : (header version).length = identifierOffset := rfl
  rw [decode, List.append_assoc, versionOf_header, List.drop_left' hheader, List.append_assoc,
    List.take_append, List.take_of_length_le hlen.le]
  obtain ⟨n, hn⟩ := Nat.exists_eq_succ_of_ne_zero (Nat.sub_ne_zero_of_lt hlen)
  rw [hn, List.singleton_append, List.take_succ_cons, cString_append_zero h]

/-- and every accepted one in the object. -/
theorem print_sent (h : 0 ∉ identifier) {data : List Byte}
    (hsend : send identifier version = some data) :
    print data = (some identifier, version.toNat) := by
  have hheader : (header version).length = identifierOffset := rfl
  rcases Nat.lt_or_ge identifierSize identifier.length with hlong | hlen
  · rw [send_too_long hlong] at hsend
    cases hsend
  · rw [send_eq h hlen] at hsend
    cases hsend
    rw [print, List.append_assoc, versionOf_header, List.drop_left' hheader, List.append_assoc,
      List.singleton_append, cString_append_zero h]

theorem mem_strcpyOffsets (h : 0 ∉ identifier) {offset : ℕ} :
    offset ∈ strcpyOffsets identifier ↔
      identifierOffset ≤ offset ∧ offset ≤ identifierOffset + identifier.length := by
  simp only [strcpyOffsets, strcpyBytes_eq h, List.length_append, List.length_singleton,
    List.mem_map, List.mem_range]
  constructor
  · rintro ⟨k, hk, rfl⟩
    omega
  · rintro ⟨hle, hlt⟩
    exact ⟨offset - identifierOffset, by omega, by omega⟩

/-- **Which identifiers survive**: all but those that are exactly as long as the array. -/
theorem survives_iff (h : 0 ∉ identifier) (version : UInt16) :
    Survives identifier version ↔ identifier.length ≠ identifierSize := by
  constructor
  · intro hsurv hlen
    obtain ⟨hoff, -⟩ := hsurv _ (send_eq h (by omega))
    have hlast := hoff (identifierOffset + identifier.length)
      ((mem_strcpyOffsets h).mpr ⟨by omega, by omega⟩)
    omega
  · intro hne data hsend
    rcases Nat.lt_or_ge identifier.length identifierSize with hlt | hge
    · rw [send_eq h hlt.le] at hsend
      cases hsend
      refine ⟨fun offset hoff => ?_, decode_sent h hlt _⟩
      obtain ⟨hle, hlt'⟩ := (mem_strcpyOffsets h).mp hoff
      omega
    · rw [send_too_long (by omega)] at hsend
      cases hsend

/-- The identifier of `main`, `test_file_name`, has 14 characters. -/
def testFileName : List Byte := [116, 101, 115, 116, 95, 102, 105, 108, 101, 95, 110, 97, 109, 101]

theorem survives_testFileName : 0 ∉ testFileName ∧ Survives testFileName 2 := by
  have h : 0 ∉ testFileName := by decide
  exact ⟨h, (survives_iff h 2).mpr (by decide)⟩

/-- **One character more**: `test_file_names` is accepted, its terminator is written behind
the field, and in the field no string ends. -/
theorem terminator_behind_field :
    0 ∉ testFileName ++ [115] ∧ (send (testFileName ++ [115]) 2).isSome ∧
      identifierOffset + identifierSize ∈ strcpyOffsets (testFileName ++ [115]) ∧
      (send (testFileName ++ [115]) 2).map decode = some (2, none) ∧
      ¬ Survives (testFileName ++ [115]) 2 := by
  refine ⟨by decide, by decide, by decide, by decide, fun hsurv => ?_⟩
  obtain ⟨data, hdata⟩ := Option.isSome_iff_exists.mp
    (show (send (testFileName ++ [115]) 2).isSome by decide)
  have hlast := (hsurv data hdata).1 (identifierOffset + identifierSize) (by decide)
  exact absurd hlast.2 (Nat.lt_irrefl _)

end UdpSender

end CppPlayground
