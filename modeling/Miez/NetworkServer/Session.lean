import Miez.Lib.Monitor
import Miez.NetworkServer

/-!
# `Miez.NetworkServer.Session`: the protocol of one connection

What a client of the server may rely on, as a monitor of the events of its connection. A client
sends a command and gets one reply to it. Between the two the server calls the broker at most
once, and the reply tells what came of that call. `MSG` frames may come at any time, but only
for the subscription that the connection holds: from the step that gives it the subscription
(`subscribed`, `attached`) to the step that puts it back (`linked`) or frees it (`freed`).

The monitor knows nothing of threads, mutexes and other connections. `conversation` knows still
less: it looks only at the lines that go over the socket, and tells from the earlier commands and
replies which replies the next command can get.
-/

set_option autoImplicit false

namespace Miez.NetworkServer

open Miez.Lib
open Miez.ThreadPool (Tid)
open Miez.MessageBroker (Message PublisherTaskArg)

/-- What happens on one connection. `subscribing` and `publishing` are the calls of the broker, and
`subscribed`, `published` and `counted` are what the broker answers. -/
inductive SessionEvent where
  | command (buffer : List UInt8)
  | subscribing (id : UInt64) (channelName : CString)
  | subscribed (k : Nat)
  | publishing (content : List UInt8) (arg : PublisherTaskArg)
  | published (arg : PublisherTaskArg)
  | attached (id : UInt64) (k : Nat)
  | counted (k count : Nat)
  | linked (id : UInt64) (k : Nat)
  | freed (k : Nat)
  | frame (k : Nat) (msg : Message)
  | reply (r : Reply)
deriving DecidableEq

/-- How far the server is with a command. At `answering r` the only reply left is `r`. -/
inductive Phase where
  | ready
  | running (command : Command)
  | subscribing (id : UInt64)
  | publishing (arg : PublisherTaskArg)
  | counting (k : Nat)
  | answering (r : Reply)
  | closed
deriving DecidableEq

/-- A connection, as its client knows it. -/
structure Session where
  authenticated : Bool
  subscription : Option Nat
  phase : Phase
deriving DecidableEq

/-- The session after a command. -/
def Session.command (apiKey : Option CString) (x : Session) (buffer : List UInt8) : Session :=
  match dispatch x.authenticated (.ofBuffer buffer) with
  | .auth key =>
      { x with
        authenticated := (handleAuth apiKey x.authenticated key).1
        phase := .answering (handleAuth apiKey x.authenticated key).2 }
  | .subscribe channelName =>
      { x with phase :=
          if x.subscription.isSome then .answering (.err .alreadySubscribed)
          else .running (.subscribe channelName) }
  | .publish channelName contentLen =>
      { x with phase :=
          if contentLen > maxContentSize then .answering (.err .contentTooLarge)
          else .running (.publish channelName contentLen) }
  | .attach id =>
      { x with phase :=
          if x.subscription.isSome then .answering (.err .alreadySubscribed)
          else .running (.attach id) }
  | .detach =>
      { x with phase :=
          if x.subscription.isSome then .running .detach else .answering (.err .notSubscribed) }
  | .quit => { x with phase := .answering .bye }
  | .error e => { x with phase := .answering (.err e) }

/-- The reasons for which a command that has begun may still be refused. -/
def Phase.refusals : Phase → List Error
  | .running (.publish _ _) => [.outOfMemory, .failedToReadContent, .failedToPublish]
  | .running (.attach _) => [.subscriptionNotFound]
  | .running .detach => [.failedToDetach]
  | .subscribing _ => [.failedToSubscribe]
  | .publishing _ => [.failedToPublish]
  | _ => []

/-- The reply is possible in this phase. -/
def Phase.allows (phase : Phase) (r : Reply) : Bool :=
  phase == .answering r || phase.refusals.any fun e => r == .err e

/-- One event of a session. -/
def Session.step (apiKey : Option CString) (x : Session) : SessionEvent → Option Session
  | .command buffer => if x.phase = .ready then some (x.command apiKey buffer) else none
  | .subscribing id channelName =>
      if x.phase = .running (.subscribe channelName) then some { x with phase := .subscribing id }
      else none
  | .subscribed k =>
      match x.phase with
      | .subscribing id =>
          some { x with subscription := some k, phase := .answering (.okNumber id.toNat) }
      | _ => none
  | .publishing content arg =>
      if x.phase = .running (.publish arg.channelName (.ofNat content.length)) ∧
          arg.content = .ofBuffer content then
        some { x with phase := .publishing arg }
      else none
  | .published arg =>
      if x.phase = .publishing arg then some { x with phase := .answering .ok } else none
  | .attached id k =>
      if x.phase = .running (.attach id) then
        some { x with subscription := some k, phase := .counting k }
      else none
  | .counted k count =>
      if x.phase = .counting k then some { x with phase := .answering (.okNumber count) } else none
  | .linked id k =>
      if x.phase = .running .detach ∧ x.subscription = some k then
        some { x with subscription := none, phase := .answering (.okNumber id.toNat) }
      else none
  | .freed k =>
      if x.subscription = some k then some { x with subscription := none, phase := .closed }
      else none
  | .frame k _ => if x.subscription = some k then some x else none
  | .reply r =>
      if x.phase.allows r then some { x with phase := if r = .bye then .closed else .ready }
      else none

/-- The protocol of a connection to a server with the given key. -/
def session (apiKey : Option CString) : Monitor Session SessionEvent where
  init := ⟨false, none, .ready⟩
  step := Session.step apiKey

section
variable {n : Nat}

/-- What an event of the broker is on a connection whose handler is the client `t`. -/
def ofBroker (t : Tid n) : MessageBroker.Event n → Option SessionEvent
  | .subscribeCall t' id channelName =>
      if t' = t then some (.subscribing id channelName) else none
  | .subscribed t' k _ _ => if t' = t then some (.subscribed k) else none
  | .pool (.submitted c task) => if .client c = t then some (.published task.arg) else none
  | .pending t' k count => if t' = t then some (.counted k count) else none
  | .freed t' k => if t' = t then some (.freed k) else none
  | _ => none

/-- What an event of the server is on the connection `i`. -/
def ofServer (i : Nat) : Event n → Option SessionEvent
  | .broker e => ofBroker (.client (Client.handler i).number) e
  | .publish j content (.publishCall _ arg) => if j = i then some (.publishing content arg) else none
  | .command j buffer => if j = i then some (.command buffer) else none
  | .attached j id k => if j = i then some (.attached id k) else none
  | .linked j id k => if j = i then some (.linked id k) else none
  | .frame j k msg => if j = i then some (.frame k msg) else none
  | .reply j r => if j = i then some (.reply r) else none
  | _ => none

/-- The events of the connection `i`. -/
def sessionTrace (i : Nat) (tr : List (Event n)) : List SessionEvent := tr.filterMap (ofServer i)

/-- What a connection holds after an event. -/
def heldAfter : Option Nat → SessionEvent → Option Nat
  | _, .subscribed k | _, .attached _ k => some k
  | _, .linked _ _ | _, .freed _ => none
  | held, _ => held

/-- The subscription that a connection holds, read off its events. -/
def heldIn (es : List SessionEvent) : Option Nat := es.foldl heldAfter none

/-! ### The conversation on the socket -/

/-- What a client knows that only looks at its own commands and at the replies to them. -/
structure Conversation where
  authenticated : Bool
  subscribed : Bool
  quit : Bool
deriving DecidableEq

/-- The reply is `OK` with a number. -/
def isNumber : Reply → Bool
  | .okNumber _ => true
  | _ => false

/-- The replies that a client may get to a command. -/
def Conversation.allows (apiKey : Option CString) (c : Conversation) (r : Reply) : Command → Bool
  | .auth key => r == (handleAuth apiKey c.authenticated key).2
  | .subscribe _ =>
      if c.subscribed then r == .err .alreadySubscribed
      else isNumber r || r == .err .failedToSubscribe
  | .publish _ contentLen =>
      if contentLen > maxContentSize then r == .err .contentTooLarge
      else r == .ok || r == .err .outOfMemory || r == .err .failedToReadContent ||
        r == .err .failedToPublish
  | .attach _ =>
      if c.subscribed then r == .err .alreadySubscribed
      else isNumber r || r == .err .subscriptionNotFound
  | .detach =>
      if c.subscribed then isNumber r || r == .err .failedToDetach
      else r == .err .notSubscribed
  | .quit => r == .bye
  | .error e => r == .err e

/-- What the client knows after a command and the reply to it. -/
def Conversation.next (apiKey : Option CString) (c : Conversation) (r : Reply) :
    Command → Conversation
  | .auth key => { c with authenticated := (handleAuth apiKey c.authenticated key).1 }
  | .subscribe _ | .attach _ => { c with subscribed := c.subscribed || isNumber r }
  | .detach => { c with subscribed := c.subscribed && !isNumber r }
  | .quit => { c with quit := true }
  | .publish _ _ | .error _ => c

/-- One command and its reply. -/
def Conversation.step (apiKey : Option CString) (c : Conversation) :
    List UInt8 × Reply → Option Conversation
  | (buffer, r) =>
      if !c.quit && c.allows apiKey r (dispatch c.authenticated (.ofBuffer buffer)) then
        some (c.next apiKey r (dispatch c.authenticated (.ofBuffer buffer)))
      else none

/-- The commands and replies of a connection to a server with the given key. -/
def conversation (apiKey : Option CString) : Monitor Conversation (List UInt8 × Reply) where
  init := ⟨false, false, false⟩
  step := Conversation.step apiKey

/-- The command that an event reads. -/
def commandOf : SessionEvent → Option (List UInt8)
  | .command buffer => some buffer
  | _ => none

/-- The reply that an event writes. -/
def replyOf : SessionEvent → Option Reply
  | .reply r => some r
  | _ => none

/-- The commands of a session. -/
def commands (es : List SessionEvent) : List (List UInt8) := es.filterMap commandOf

/-- The replies of a session. -/
def replies (es : List SessionEvent) : List Reply := es.filterMap replyOf

/-- The commands of a session with the replies to them. -/
def exchanges (es : List SessionEvent) : List (List UInt8 × Reply) := (commands es).zip (replies es)

end

end Miez.NetworkServer
