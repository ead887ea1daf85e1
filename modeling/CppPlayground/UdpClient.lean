import CppPlayground.UdpSender
import CppPlayground.UdpServer

/-!
# From the UDP client to the UDP server

`udp_socket/client.cpp` fills in the version and the identifier of a `Data` on its stack and sends
all of the object. The bytes that it does not write are whatever was on the stack before: the
message type and what follows the identifier.

`server.cpp` prints the version and the identifier of each such message as they were sent
(`run_messages`), in the order of arrival and whatever it has received before, since every message
carries the terminator of its string.
-/

namespace CppPlayground

namespace UdpClient

open Machine UdpData UdpSender UdpServer

/-- What is to be sent, and what was on the stack of the client. -/
structure Message where
  stack : List Byte
  version : UInt16
  identifier : List Byte
  stack_length : stack.length = dataSize
  /-- the identifier is a string that fits into its field -/
  no_zero : 0 ∉ identifier
  fits : identifier.length < identifierSize

/-- The client: `version` and `strcpy`, and all of the object is sent. -/
def Message.data (m : Message) : List Byte :=
  store (store m.stack versionOffset (uint16 m.version)) identifierOffset
    (strcpyBytes m.identifier)

/-- The message of `client.cpp`, version 7 of `file_name`. -/
def client (stack : List Byte) (h : stack.length = dataSize) : Message where
  stack := stack
  version := 7
  identifier := [102, 105, 108, 101, 95, 110, 97, 109, 101]
  stack_length := h
  no_zero := by decide
  fits := by decide

variable (m : Message)

/-- The message: four bytes of the stack, what was written, and the rest of the stack. -/
theorem Message.data_eq :
    m.data = m.stack.take versionOffset ++ (uint16 m.version ++ (m.identifier ++ 0 ::
      m.stack.drop (identifierOffset + (m.identifier.length + 1)))) := by
  have hfirst : (m.stack.take versionOffset ++ uint16 m.version).length = identifierOffset := by
    rw [List.length_append, List.length_take, m.stack_length]
    rfl
  have hversion : store m.stack versionOffset (uint16 m.version) =
      m.stack.take versionOffset ++ uint16 m.version ++ m.stack.drop identifierOffset := rfl
  rw [Message.data, hversion, strcpyBytes_eq m.no_zero, store, List.take_left' hfirst,
    ← List.drop_drop, List.drop_left' hfirst, List.drop_drop, List.length_append]
  simp only [List.append_assoc, List.length_singleton, List.singleton_append]

theorem Message.data_length : m.data.length ≤ bufSize := by
  have hlength := m.stack_length
  have hfits := m.fits
  have huint : (uint16 m.version).length = 2 := rfl
  simp only [m.data_eq, List.length_append, List.length_cons, List.length_take, List.length_drop,
    huint, dataSize, identifierSize, identifierOffset, versionOffset, bufSize] at *
  omega

/-- The datagram of a message. -/
def Message.datagram : Datagram := ⟨m.data, m.data_length⟩

theorem Message.drop_data :
    m.data.drop identifierOffset =
      m.identifier ++ 0 :: m.stack.drop (identifierOffset + (m.identifier.length + 1)) := by
  have hfirst : (m.stack.take versionOffset ++ uint16 m.version).length = identifierOffset := by
    rw [List.length_append, List.length_take, m.stack_length]
    rfl
  rw [m.data_eq, ← List.append_assoc, List.drop_left' hfirst]

/-- The version does not depend on the bytes in front of it. -/
theorem versionOf_append {front rest : List Byte} (h : front.length = versionOffset) :
    versionOf (front ++ rest) = (rest.getD 0 0).toNat + 256 * (rest.getD 1 0).toNat := by
  have hle : front.length ≤ versionOffset + 1 := by rw [h]; decide
  rw [versionOf, List.getD_append_right _ _ _ _ h.le, List.getD_append_right _ _ _ _ hle, h,
    Nat.sub_self, Nat.add_sub_cancel_left]

theorem Message.versionOf_data : versionOf m.data = m.version.toNat := by
  have hfront : (m.stack.take versionOffset).length = versionOffset := by
    rw [List.length_take, m.stack_length]
    rfl
  have hheader := versionOf_header m.version
    (m.identifier ++ 0 :: m.stack.drop (identifierOffset + (m.identifier.length + 1)))
  rw [header, List.append_assoc, versionOf_append rfl] at hheader
  rw [m.data_eq, versionOf_append hfront, hheader]

/-- What the server prints for a message. -/
theorem Message.print (buf : Buffer) :
    ∃ r, (buf.recvfrom m.datagram).print = some r ∧ r.identifier = m.identifier ∧
      r.version = m.version.toNat := by
  have hdrop := m.drop_data
  have hzero : 0 ∈ m.datagram.bytes.drop identifierOffset := by
    change 0 ∈ m.data.drop identifierOffset
    simp [hdrop]
  obtain ⟨r, hr, hidentifier, hversion⟩ := print_recvfrom hzero buf
  refine ⟨r, hr, ?_, hversion.trans m.versionOf_data⟩
  have hstring := cString_append_zero m.no_zero
    (m.stack.drop (identifierOffset + (m.identifier.length + 1)))
  rw [cString, if_pos (by simp)] at hstring
  rw [hidentifier]
  change (m.data.drop identifierOffset).takeWhile _ = _
  rw [hdrop]
  exact Option.some.inj hstring

end UdpClient

end CppPlayground
