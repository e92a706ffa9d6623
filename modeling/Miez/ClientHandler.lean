import Miez.Lib.Machine
import Miez.Stdio

/-!
# `Miez.ClientHandler`: how a client handler reads its connection

The reading side of `_client_handler` in `src/network_server.c`: the loop that reads a command
line byte by byte, the choice of the command, and the reads of `_handle_publish`. A step is one
`SSL_read`, or the `malloc` of `_handle_publish`. What the commands do to the server is in
`Miez.NetworkServer`, which uses the same steps.

`reader` is the handler of one authenticated connection alone, as a machine over the byte stream
of its client. None of the other handlers of a command reads from the connection, so their work
is not a step of `reader`.
-/

set_option autoImplicit false

namespace Miez.NetworkServer

open Miez.Lib
open Miez.Stdio (ascii)

/-! ### Replies -/

/-- The reasons of the `ERR` replies. -/
inductive Error where
  | alreadySubscribed
  | failedToSubscribe
  | subscriptionNotFound
  | notSubscribed
  | failedToDetach
  | contentTooLarge
  | outOfMemory
  | failedToReadContent
  | failedToPublish
  | alreadyAuthenticated
  | invalidApiKey
  | authenticationRequired
  | unknownCommand
  | invalidCommandFormat
deriving DecidableEq, Repr

/-- The text after `ERR`. -/
def Error.text : Error → String
  | .alreadySubscribed => "Already subscribed"
  | .failedToSubscribe => "Failed to subscribe"
  | .subscriptionNotFound => "Subscription not found"
  | .notSubscribed => "Not subscribed"
  | .failedToDetach => "Failed to detach"
  | .contentTooLarge => "Content too large"
  | .outOfMemory => "Out of memory"
  | .failedToReadContent => "Failed to read content"
  | .failedToPublish => "Failed to publish"
  | .alreadyAuthenticated => "Already authenticated"
  | .invalidApiKey => "Invalid API key"
  | .authenticationRequired => "Authentication required"
  | .unknownCommand => "Unknown command"
  | .invalidCommandFormat => "Invalid command format"

/-- The argument of `_send_response`. `okNumber` is the reply with a subscription id or with
the number of pending messages. -/
inductive Reply where
  | ok
  | okNumber (n : Nat)
  | bye
  | err (e : Error)
deriving DecidableEq, Repr

/-- The bytes of a reply. -/
def Reply.bytes : Reply → List UInt8
  | .ok => ascii "OK\n"
  | .okNumber n => ascii "OK " ++ Stdio.decimal n ++ ascii "\n"
  | .bye => ascii "BYE\n"
  | .err e => ascii "ERR " ++ ascii e.text ++ ascii "\n"

/-! ### The choice of the command -/

/-- A string literal as a C string. -/
def literal (s : String) : CString := CString.ofBuffer (ascii s)

/-- `sscanf(buffer, "%31s %255s %zu", command, channel, &content_len) >= 2`, with the three
values. `content_len` stays 0 when there is no third conversion. -/
def scanCommand (buffer : CString) : Option (CString × CString × UInt64) :=
  (Stdio.scanString 31 buffer.bytes).bind fun (command, rest) =>
    (Stdio.scanString 255 rest).map fun (channel, rest) =>
      (.ofBuffer command, .ofBuffer channel, (Stdio.scanSize rest).getD 0)

/-- What a command buffer asks for. -/
inductive Command where
  | auth (apiKey : CString)
  | subscribe (channelName : CString)
  | publish (channelName : CString) (contentLen : UInt64)
  | attach (subscriptionId : UInt64)
  | detach
  | quit
  | error (e : Error)
deriving DecidableEq

/-- The tests of `_client_handler` on a command buffer, in their order. -/
def dispatch (authenticated : Bool) (buffer : CString) : Command :=
  match scanCommand buffer with
  | some (command, channel, contentLen) =>
      if command.strcmp (literal "AUTH") = 0 then .auth channel
      else if !authenticated then .error .authenticationRequired
      else if command.strcmp (literal "SUBSCRIBE") = 0 then .subscribe channel
      else if command.strcmp (literal "PUBLISH") = 0 ∧ contentLen > 0 then
        .publish channel contentLen
      else if command.strcmp (literal "ATTACH") = 0 then .attach (Stdio.strtoull channel)
      else if command.strcmp (literal "QUIT") = 0 then .quit
      else .error .unknownCommand
  | none =>
      if buffer.strcmp (literal "DETACH") = 0 then
        if !authenticated then .error .authenticationRequired else .detach
      else if buffer.strcmp (literal "QUIT") = 0 then .quit
      else .error .invalidCommandFormat

/-- `_handle_auth`: the new value of `_authenticated` and the reply. -/
def handleAuth (serverKey : Option CString) (authenticated : Bool) (apiKey : CString) :
    Bool × Reply :=
  if authenticated then (authenticated, .err .alreadyAuthenticated)
  else
    match serverKey with
    | none => (true, .ok)
    | some key =>
        if apiKey.strcmp key = 0 then (true, .ok) else (authenticated, .err .invalidApiKey)

/-! ### The reads -/

/-- `BUFFER_SIZE`. -/
def bufferSize : Nat := 4096

/-- `MAX_CONTENT_SIZE`. -/
def maxContentSize : UInt64 := 65536

/-- The program points at which a handler waits for the connection or for memory. -/
inductive ReadPc where
  | line (buffer : List UInt8)
  | malloc (channelName : CString) (contentLen : UInt64)
  | body (channelName : CString) (contentLen : UInt64)
  | newline (channelName : CString) (content : List UInt8)
deriving DecidableEq

/-- What a handler gets: the bytes of an `SSL_read`, an `SSL_read` that returns 0 or less, or
the result of a `malloc`. -/
inductive Input where
  | bytes (bs : List UInt8)
  | closed
  | memory
  | noMemory
deriving DecidableEq

/-- The number of bytes taken from the connection. -/
def Input.size : Input → Nat
  | .bytes bs => bs.length
  | _ => 0

/-- How a handler goes on after a read. `leave` is the end of its loop. -/
inductive ReadResult where
  | more (pc : ReadPc)
  | command (buffer : List UInt8)
  | leave
  | publish (channelName : CString) (content : List UInt8)
  | failed (e : Error)
deriving DecidableEq

/-- One byte of a command line. A line ends at `\n` or when the buffer is full, and an empty
line ends the loop of the handler. -/
def readLine (buffer : List UInt8) (b : UInt8) : ReadResult :=
  if b = 10 then if buffer = [] then .leave else .command buffer
  else if buffer.length + 1 < bufferSize - 1 then .more (.line (buffer ++ [b]))
  else .command (buffer ++ [b])

/-- One read of a handler. The content is read with one `SSL_read` of `content_len` bytes, and
the result of the read of the byte after it is not looked at. -/
def readStep : ReadPc → Input → Option ReadResult
  | .line buffer, .bytes [b] => some (readLine buffer b)
  | .line _, .closed => some .leave
  | .malloc channelName contentLen, .memory => some (.more (.body channelName contentLen))
  | .malloc _ _, .noMemory => some (.failed .outOfMemory)
  | .body channelName contentLen, .bytes bs =>
      if bs = [] ∨ contentLen.toNat < bs.length then none
      else if bs.length = contentLen.toNat then some (.more (.newline channelName bs))
      else some (.failed .failedToReadContent)
  | .body _ _, .closed => some (.failed .failedToReadContent)
  | .newline channelName content, .bytes [_] => some (.publish channelName content)
  | .newline channelName content, .closed => some (.publish channelName content)
  | _, _ => none

/-- The start of `_handle_publish`. -/
def handlePublish (channelName : CString) (contentLen : UInt64) : Except Error ReadPc :=
  if contentLen > maxContentSize then .error .contentTooLarge
  else .ok (.malloc channelName contentLen)

/-! ### The handler of one authenticated connection -/

/-- What the connection and the allocator do. The `SSL_read` of `n` bytes at the position `p` of
the stream returns `sslRead p n` bytes, or fewer when the stream has no more, and `malloc p`
tells whether the `malloc` at the position `p` succeeds. -/
structure Environment where
  sslRead : Nat → Nat → Nat
  sslRead_pos : ∀ p n, 1 ≤ n → 1 ≤ sslRead p n
  sslRead_le : ∀ p n, sslRead p n ≤ n
  malloc : Nat → Bool

/-- The next input of a handler that has taken `p` bytes of the stream. There is none when it
has to wait for bytes that the client has not sent. -/
def Environment.input (E : Environment) (stream : List UInt8) (p : Nat) (pc : ReadPc) :
    Option Input :=
  let sslRead (n : Nat) : Option Input :=
    if stream.drop p = [] then none
    else some (.bytes ((stream.drop p).take (E.sslRead p n)))
  match pc with
  | .line _ => sslRead 1
  | .malloc _ _ => some (if E.malloc p then .memory else .noMemory)
  | .body _ contentLen => sslRead contentLen.toNat
  | .newline _ _ => sslRead 1

/-- What the handler does with the stream: it takes a command buffer, which may announce a
content that it goes on to read, or it calls `message_broker_publish`. -/
inductive ReaderEvent where
  | command (buffer : List UInt8) (announced : Option (CString × UInt64))
  | publish (channelName : CString) (content : List UInt8)
deriving DecidableEq

/-- The handler with the bytes it has taken so far. It has left its loop when there is no
program point. -/
structure Reader where
  pc : Option ReadPc
  position : Nat
deriving DecidableEq

/-- The content that a command buffer announces and the handler goes on to read. -/
def announced (buffer : List UInt8) : Option (CString × UInt64) :=
  match dispatch true (.ofBuffer buffer) with
  | .publish channelName contentLen =>
      if contentLen > maxContentSize then none else some (channelName, contentLen)
  | _ => none

/-- Where an authenticated handler is after it has done a command. -/
def afterCommand (buffer : List UInt8) : Option ReadPc :=
  match dispatch true (.ofBuffer buffer) with
  | .publish channelName contentLen =>
      match handlePublish channelName contentLen with
      | .ok pc => some pc
      | .error _ => some (.line [])
  | .quit => none
  | _ => some (.line [])

/-- The program point and the event after a read. -/
def afterRead : ReadResult → Option ReadPc × Option ReaderEvent
  | .more pc => (some pc, none)
  | .command buffer => (afterCommand buffer, some (.command buffer (announced buffer)))
  | .leave => (none, none)
  | .publish channelName content => (some (.line []), some (.publish channelName content))
  | .failed _ => (some (.line []), none)

/-- One step of the handler. -/
def Reader.next (E : Environment) (stream : List UInt8) (s : Reader) :
    Option (Reader × Option ReaderEvent) :=
  s.pc.bind fun pc =>
    (E.input stream s.position pc).bind fun input =>
      (readStep pc input).map fun r =>
        (⟨(afterRead r).1, s.position + input.size⟩, (afterRead r).2)

/-- The handler of an authenticated connection whose client sends `stream`. -/
def reader (E : Environment) (stream : List UInt8) : Machine Reader Unit ReaderEvent where
  init := ⟨some (.line []), 0⟩
  next s _ := s.next E stream

end Miez.NetworkServer
