import Miez.NetworkServer

/-!
# `Miez.NetworkServer.Frames`: how a receiver builds a frame, and how a client takes it apart

`_subscriber_receiver_thread` builds a frame in a block of `total_len` bytes: `snprintf` writes the
header, and the content and a newline are copied behind it. Here the block is a list of bytes, with
anything in it when `malloc` returns it, and a write outside the block has no result. A frame is
the bytes of the block that are meant for `SSL_write`.

The client is `receive_all_pending_messages` of `tests/test_reconnection.py`: it reads a line,
splits it at the blanks, and reads as many bytes as the line tells and one more.
-/

set_option autoImplicit false

namespace Miez.NetworkServer

open Miez.Stdio (ascii)
open Miez.MessageBroker (Message)

/-! ### The receiver -/

/-- A write of `bs` at the offset `i` of a block. -/
def overwrite (block : List UInt8) (i : Nat) (bs : List UInt8) : Option (List UInt8) :=
  if i + bs.length ≤ block.length then some (block.take i ++ bs ++ block.drop (i + bs.length))
  else none

/-- `snprintf` of a text into a block: at most `size - 1` bytes of it are written, with a NUL after
them, and the length of the whole text is returned. -/
def snprintf (block : List UInt8) (size : Nat) (text : List UInt8) :
    Option (List UInt8 × Nat) :=
  (overwrite block 0 (text.take (size - 1) ++ [0])).map fun block => (block, text.length)

/-- The text of the header `"MSG %lu %s %zu\n"`. -/
def headerText (id : UInt64) (channel : CString) (contentLen : Nat) : List UInt8 :=
  ascii "MSG " ++ Stdio.decimal id.toNat ++ ascii " " ++ channel.bytes ++ ascii " " ++
    Stdio.decimal contentLen ++ ascii "\n"

/-- `total_len`. -/
def totalLen (contentLen : Nat) : Nat := 512 + contentLen + 1

/-- The frame of a message, built in a block where `malloc` has left the bytes `memory`. -/
def buildFrame (memory : Nat → UInt8) (msg : Message) : Option (List UInt8) := do
  let contentLen := msg.content.strlen
  let fullMessage := (List.range (totalLen contentLen)).map memory
  let (fullMessage, headerLen) ← snprintf fullMessage (totalLen contentLen)
    (headerText msg.id msg.channelName contentLen)
  let fullMessage ← overwrite fullMessage headerLen msg.content.bytes
  let fullMessage ← overwrite fullMessage (headerLen + contentLen) (ascii "\n")
  some (fullMessage.take (headerLen + contentLen + 1))

/-- `size_t total_len`, with the arithmetic of the machine. -/
def totalLenSize (contentLen : UInt64) : UInt64 := 512 + contentLen + 1

/-- `int header_len`: the length that `snprintf` returns. -/
def headerLen (msg : Message) : Int32 :=
  .ofNat (headerText msg.id msg.channelName msg.content.strlen).length

/-- `int total_write_len = header_len + content_len + 1`. The sum is a `size_t`, and the result is
cut off to an `int`. -/
def totalWriteLen (headerLen : Int32) (contentLen : UInt64) : Int32 :=
  (headerLen.toInt64.toUInt64 + contentLen + 1).toUInt32.toInt32

/-! ### The client -/

/-- A field that is a decimal number. -/
def numberField (field : List UInt8) : Option Nat :=
  if field ≠ [] ∧ field.all Stdio.isDigit then some (Stdio.digitsValue field) else none

/-- The id, the channel and the content that a client takes from a frame. -/
abbrev Decoded : Type := Nat × List UInt8 × List UInt8

/-- The next frame of a stream and the rest of the stream. -/
def decodeFrame (stream : List UInt8) : Option (Decoded × List UInt8) :=
  match stream.dropWhile (· ≠ 10) with
  | [] => none
  | _ :: rest =>
      match (stream.takeWhile (· ≠ 10)).splitOn 32 with
      | msg :: id :: channel :: len :: _ =>
          if msg = ascii "MSG" then do
            let id ← numberField id
            let contentLen ← numberField len
            if rest.length < contentLen + 1 then none
            else some ((id, channel, rest.take contentLen), rest.drop (contentLen + 1))
          else none
      | _ => none

/-- A frame takes bytes from the stream. -/
theorem length_of_decodeFrame {stream rest : List UInt8} {d : Decoded}
    (h : decodeFrame stream = some (d, rest)) : rest.length < stream.length := by
  rw [decodeFrame] at h
  split at h
  · cases h
  · rename_i b tail hdrop
    have htail : tail.length < stream.length := by
      have hle := (List.dropWhile_suffix (l := stream) (· ≠ 10)).length_le
      rw [hdrop, List.length_cons] at hle
      exact hle
    split at h
    · split at h
      · obtain ⟨id, -, h⟩ := Option.bind_eq_some_iff.mp h
        obtain ⟨contentLen, -, h⟩ := Option.bind_eq_some_iff.mp h
        split at h
        · cases h
        · cases h
          rw [List.length_drop]
          omega
      · cases h
    · cases h

/-- The frames of a stream, and what is left of the stream when there is no further frame. -/
def decode (stream : List UInt8) : List Decoded × List UInt8 :=
  match h : decodeFrame stream with
  | none => ([], stream)
  | some (d, rest) =>
      have := length_of_decodeFrame h
      (d :: (decode rest).1, (decode rest).2)
termination_by stream.length

end Miez.NetworkServer
