import Miez.ClientHandler
import Miez.MessageBroker

/-!
# `Miez.NetworkServer`: the network server as a state machine

`src/network_server.c` over the broker. Each connection has a client handler and, while it holds
a subscription, a receiver thread. Both call the broker, as does the thread that frees the
server, so each of them is a client of the broker. Threads of the same program that publish
without the network are clients too. A step is one `SSL_read`, one `SSL_write`, one access to a
field that two threads use, one section of `_detached_mutex`, the start or the join of a thread,
or one step inside the broker. The code before the first such access belongs to the call.

`_find_and_remove_detached` and the last part of `_add_detached` are one section each. A handler
that reads a subscription object after it was freed is `faulted`. `pthread_join` of a thread that
does not exist is no step. `network_server_free` starts when every connection is closed.
-/

set_option autoImplicit false

namespace Miez.NetworkServer

open Miez.Lib
open Miez.ThreadPool (Tid)
open Miez.MessageBroker (Message)

/-- The threads that are clients of the broker. -/
inductive Client where
  | main
  | handler (i : Nat)
  | receiver (i : Nat)
  | publisher (j : Nat)
deriving DecidableEq

/-- The number of a thread as a client of the broker. -/
def Client.number : Client → Nat
  | .main => 0
  | .handler i => 3 * i + 1
  | .receiver i => 3 * i + 2
  | .publisher j => 3 * j + 3

/-- The thread with a number. -/
def clientOf (c : Nat) : Client :=
  if c = 0 then .main
  else if c % 3 = 1 then .handler (c / 3)
  else if c % 3 = 2 then .receiver (c / 3)
  else .publisher (c / 3 - 1)

/-- The program points of `_client_handler` and of the functions it calls. `attach` tells the
start of a receiver in `_handle_attach` from that in `_handle_subscribe`, and `last` is a reply
after which the handler leaves its loop. -/
inductive HandlerPc where
  | absent
  | testRunning
  | read (pc : ReadPc)
  | reply (r : Reply) (last : Bool)
  | callSubscribe (channelName : CString)
  | subscribing
  | activate (attach : Bool)
  | createReceiver (attach : Bool)
  | getId
  | findDetached (id : UInt64)
  | callPending
  | pendingCount
  | deactivate
  | joinDetach
  | addDetached
  | linkDetached (id : UInt64)
  | detachGetId
  | callPublish (channelName : CString) (content : List UInt8)
  | publishing
  | leave
  | joinLeave
  | callUnsubscribe
  | unsubscribing
  | callFree
  | freeing
  | closed
  | faulted
deriving DecidableEq

/-- The program points of `_subscriber_receiver_thread`. -/
inductive ReceiverPc where
  | absent
  | testActive
  | callReceive
  | receiving
  | malloc (msg : Message)
  | write (msg : Message)
  | sleep
  | exited
deriving DecidableEq

/-- `struct client_context_t`, with the program points of the two threads that use it. -/
structure Connection where
  subscription : Option Nat
  active : Bool
  detached : Bool
  authenticated : Bool
  handler : HandlerPc
  receiver : ReceiverPc
deriving DecidableEq

/-- The program points of `network_server_free`. -/
inductive MainPc where
  | serving
  | nextNode
  | unsubscribing
  | callFree
  | freeing
  | freed
deriving DecidableEq

/-- `struct detached_subscription_t`: the id and the subscription of a node. -/
abbrev Detached := UInt64 × Nat

/-- A state of the server and its broker. -/
structure State (n : Nat) where
  broker : MessageBroker.State n
  connection : Nat → Connection
  nextConnection : Nat
  detachedSubscriptions : List Detached
  running : Bool
  main : MainPc

/-- What an observer sees. `frame i k msg` is the `MSG` frame of a message, written on the
connection `i` for the subscription `k`. -/
inductive Event (n : Nat) where
  | broker (e : MessageBroker.Event n)
  | publish (i : Nat) (content : List UInt8) (e : MessageBroker.Event n)
  | accepted (i : Nat)
  | command (i : Nat) (buffer : List UInt8)
  | reply (i : Nat) (r : Reply)
  | frame (i k : Nat) (msg : Message)
  | attached (i : Nat) (id : UInt64) (k : Nat)
  | linked (i : Nat) (id : UInt64) (k : Nat)
  | receiverCreated (i : Nat)
  | receiverJoined (i : Nat)
deriving DecidableEq

/-- The move of a handler or of a receiver. `fail` is an allocation, a thread or an `SSL_write`
that fails. -/
inductive Move where
  | go
  | fail
  | read (input : Input)
deriving DecidableEq

/-- One step of the server. `broker a` is a step of a thread inside the broker. -/
inductive Action (n : Nat) where
  | accept
  | handler (i : Nat) (move : Move)
  | receiver (i : Nat) (move : Move)
  | stop
  | free
  | publish (j : Nat) (channelName content : CString)
  | broker (a : MessageBroker.Action n)
deriving DecidableEq

/-- What a step of a handler or of a receiver does: it changes the connection and the registry,
or it calls the broker. -/
inductive Outcome (n : Nat) where
  | step (ctx : Connection) (registry : List Detached) (e : Option (Event n))
  | call (ctx : Connection) (move : MessageBroker.Move n)

section
variable {n : Nat}

/-! ### The registry of detached subscriptions -/

/-- `_find_and_remove_detached`: the subscription of the first node with the id, and the list
without that node. -/
def findAndRemoveDetached (registry : List Detached) (id : UInt64) :
    Option (Nat × List Detached) :=
  match registry with
  | [] => none
  | node :: rest =>
      if node.1 = id then some (node.2, rest)
      else (findAndRemoveDetached rest id).map fun r => (r.1, node :: r.2)

/-! ### The client handler -/

/-- The part of `_client_handler` from a command buffer to the first step of the command. -/
def handleCommand (apiKey : Option CString) (ctx : Connection) (buffer : List UInt8) :
    Connection :=
  match dispatch ctx.authenticated (.ofBuffer buffer) with
  | .auth key =>
      { ctx with
        authenticated := (handleAuth apiKey ctx.authenticated key).1
        handler := .reply (handleAuth apiKey ctx.authenticated key).2 false }
  | .subscribe channelName =>
      { ctx with handler :=
          if ctx.subscription.isSome then .reply (.err .alreadySubscribed) false
          else .callSubscribe channelName }
  | .publish channelName contentLen =>
      { ctx with handler :=
          match handlePublish channelName contentLen with
          | .ok pc => .read pc
          | .error e => .reply (.err e) false }
  | .attach id =>
      { ctx with handler :=
          if ctx.subscription.isSome then .reply (.err .alreadySubscribed) false
          else .findDetached id }
  | .detach =>
      { ctx with handler :=
          if ctx.subscription.isSome then .deactivate else .reply (.err .notSubscribed) false }
  | .quit => { ctx with handler := .reply .bye true }
  | .error e => { ctx with handler := .reply (.err e) false }

/-- One read of a handler and what follows from it. -/
def handleRead (apiKey : Option CString) (i : Nat) (ctx : Connection) (pc : ReadPc)
    (input : Input) : Option (Connection × Option (Event n)) :=
  (readStep pc input).map fun
    | .more pc => ({ ctx with handler := .read pc }, none)
    | .command buffer => (handleCommand apiKey ctx buffer, some (.command i buffer))
    | .leave => ({ ctx with handler := .leave }, none)
    | .publish channelName content => ({ ctx with handler := .callPublish channelName content }, none)
    | .failed e => ({ ctx with handler := .reply (.err e) false }, none)

/-- `subscription_get_id` of the subscription of a connection. -/
def getId (sh : MessageBroker.Shared n) (ctx : Connection) : Option UInt64 :=
  match ctx.subscription with
  | none => none
  | some k =>
      if (sh.subscription k).released then none else some (sh.subscription k).id

/-- The program point after `subscription_get_id`. -/
def withId (sh : MessageBroker.Shared n) (ctx : Connection) (pc : UInt64 → HandlerPc) : HandlerPc :=
  match getId sh ctx with
  | some id => pc id
  | none => .faulted

/-- A step of a handler outside the broker, or its next call of the broker. -/
def clientHandler (apiKey : Option CString) (i : Nat) (running : Bool)
    (sh : MessageBroker.Shared n) (registry : List Detached) (ctx : Connection) :
    HandlerPc → Move → Option (Outcome n)
  | .testRunning, .go =>
      some (.step { ctx with handler := if running then .read (.line []) else .leave } registry none)
  | .read pc, .read input =>
      (handleRead apiKey i ctx pc input).map fun r => .step r.1 registry r.2
  | .reply r last, .go =>
      some (.step { ctx with handler := if last then .leave else .testRunning } registry
        (some (.reply i r)))
  -- `_handle_subscribe` and the second half of `_handle_attach`
  | .callSubscribe channelName, .go =>
      some (.call { ctx with handler := .subscribing } (.callSubscribe channelName))
  | .activate attach, .go =>
      some (.step { ctx with detached := false, active := true, handler := .createReceiver attach }
        registry none)
  | .createReceiver attach, .go =>
      some (.step { ctx with
          receiver := .testActive
          handler := if attach then .callPending else .getId } registry (some (.receiverCreated i)))
  | .createReceiver attach, .fail =>
      some (.step { ctx with handler := if attach then .callPending else .getId } registry none)
  | .getId, .go =>
      some (.step { ctx with handler := withId sh ctx fun id => .reply (.okNumber id.toNat) false }
        registry none)
  -- `_handle_attach`
  | .findDetached id, .go =>
      some (match findAndRemoveDetached registry id with
        | none => .step { ctx with handler := .reply (.err .subscriptionNotFound) false } registry none
        | some (k, rest) =>
            .step { ctx with subscription := some k, handler := .activate true } rest
              (some (.attached i id k)))
  | .callPending, .go =>
      ctx.subscription.map fun k =>
        .call { ctx with handler := .pendingCount } (.callPendingCount k)
  -- `_handle_detach`
  | .deactivate, .go =>
      some (.step { ctx with active := false, handler := .joinDetach } registry none)
  | .joinDetach, .go =>
      if ctx.receiver = .exited then
        some (.step { ctx with receiver := .absent, handler := .addDetached } registry
          (some (.receiverJoined i)))
      else none
  | .addDetached, .go =>
      some (.step { ctx with handler := withId sh ctx .linkDetached } registry none)
  | .addDetached, .fail =>
      some (.step { ctx with handler := withId sh ctx fun _ => .reply (.err .failedToDetach) false }
        registry none)
  | .linkDetached id, .go =>
      ctx.subscription.map fun k =>
        .step { ctx with handler := .detachGetId } ((id, k) :: registry) (some (.linked i id k))
  | .detachGetId, .go =>
      some (match getId sh ctx with
        | some id =>
            .step { ctx with
              subscription := none
              detached := true
              handler := .reply (.okNumber id.toNat) false } registry none
        | none => .step { ctx with handler := .faulted } registry none)
  -- the end of `_handle_publish`
  | .callPublish channelName content, .go =>
      some (.call { ctx with handler := .publishing } (.callPublish channelName (.ofBuffer content)))
  | .callPublish _ _, .fail =>
      some (.step { ctx with handler := .reply (.err .failedToPublish) false } registry none)
  -- the end of `_client_handler`
  | .leave, .go =>
      some (.step { ctx with
          active := false
          handler := if ctx.subscription.isSome ∧ ctx.detached = false then .joinLeave else .closed }
        registry none)
  | .joinLeave, .go =>
      if ctx.receiver = .exited then
        some (.step { ctx with receiver := .absent, handler := .callUnsubscribe } registry
          (some (.receiverJoined i)))
      else none
  | .callUnsubscribe, .go =>
      ctx.subscription.map fun k =>
        .call { ctx with handler := .unsubscribing } (.callUnsubscribe k)
  | .callFree, .go =>
      ctx.subscription.map fun k => .call { ctx with handler := .freeing } (.callFree k)
  | _, _ => none

/-- A handler goes on after a call of the broker that showed `e` when it returned. The context
is freed at the end of the handler. -/
def handlerReturn (ctx : Connection) (e : Option (MessageBroker.Event n)) : Connection :=
  match ctx.handler, e with
  | .subscribing, some (.subscribed _ k _ _) =>
      { ctx with subscription := some k, handler := .activate false }
  | .subscribing, _ => { ctx with handler := .reply (.err .failedToSubscribe) false }
  | .pendingCount, some (.pending _ _ count) => { ctx with handler := .reply (.okNumber count) false }
  | .publishing, some (.pool (.submitted _ _)) => { ctx with handler := .reply .ok false }
  | .publishing, _ => { ctx with handler := .reply (.err .failedToPublish) false }
  | .unsubscribing, _ => { ctx with handler := .callFree }
  | .freeing, _ => { ctx with subscription := none, handler := .closed }
  | _, _ => ctx

/-! ### The receiver thread -/

/-- A step of a receiver outside the broker, or its next call of the broker. -/
def subscriberReceiverThread (i : Nat) (registry : List Detached) (ctx : Connection) :
    ReceiverPc → Move → Option (Outcome n)
  | .testActive, .go =>
      some (.step { ctx with receiver := if ctx.active then .callReceive else .exited } registry none)
  | .callReceive, .go =>
      ctx.subscription.map fun k =>
        .call { ctx with receiver := .receiving } (.callReceive k true)
  | .malloc msg, .go => some (.step { ctx with receiver := .write msg } registry none)
  | .malloc _, .fail => some (.step { ctx with receiver := .testActive } registry none)
  | .write msg, .go =>
      ctx.subscription.map fun k =>
        .step { ctx with receiver := .testActive } registry (some (.frame i k msg))
  | .write _, .fail => some (.step { ctx with receiver := .testActive } registry none)
  | .sleep, .go => some (.step { ctx with receiver := .testActive } registry none)
  | _, _ => none

/-- A receiver goes on after `subscription_try_receive`. -/
def receiverReturn (ctx : Connection) (e : Option (MessageBroker.Event n)) : Connection :=
  match ctx.receiver, e with
  | .receiving, some (.got _ _ _ (some msg)) => { ctx with receiver := .malloc msg }
  | .receiving, _ => { ctx with receiver := .sleep }
  | _, _ => ctx

/-- The bytes of a `MSG` frame with an id, a channel and a content. -/
def frameOf (id : UInt64) (channelName : CString) (content : List UInt8) : List UInt8 :=
  Stdio.ascii "MSG " ++ Stdio.decimal id.toNat ++ Stdio.ascii " " ++ channelName.bytes ++
    Stdio.ascii " " ++ Stdio.decimal content.length ++ Stdio.ascii "\n" ++ content ++
    Stdio.ascii "\n"

/-- The `MSG` frame that a receiver writes for a message. Its length is the `strlen` of the
content. -/
def frameBytes (msg : Message) : List UInt8 := frameOf msg.id msg.channelName msg.content.bytes

/-! ### The machine -/

/-- A connection that has been accepted. -/
def newConnection : Connection := ⟨none, false, false, false, .testRunning, .absent⟩

/-- A connection that does not exist yet. -/
def noConnection : Connection := ⟨none, false, false, false, .absent, .absent⟩

/-- The server after `network_server_start`, over a broker after `message_broker_new`. -/
def init (capacity : UInt64) (capacity_ne_zero : capacity ≠ 0) : State n where
  broker := MessageBroker.init capacity capacity_ne_zero
  connection := fun _ => noConnection
  nextConnection := 0
  detachedSubscriptions := []
  running := true
  main := .serving

/-- A write to the connection `i`. -/
def State.setConnection (s : State n) (i : Nat) (ctx : Connection) : State n :=
  { s with connection := Function.update s.connection i ctx }

/-- The thread `client` calls the broker. -/
def State.call (s : State n) (client : Client) (move : MessageBroker.Move n) :
    Option (State n × Option (MessageBroker.Event n)) :=
  (MessageBroker.next s.broker (.thread (.client client.number) move)).map fun r =>
    ({ s with broker := r.1 }, r.2)

/-- The event of a call of the broker by a handler. A publish also shows the content that the
handler has read. -/
def callEvent (i : Nat) (ctx : Connection) (e : MessageBroker.Event n) : Event n :=
  match ctx.handler with
  | .callPublish _ content => .publish i content e
  | _ => .broker e

/-- A thread is back from the broker. -/
def State.returnTo (s : State n) (client : Client) (e : Option (MessageBroker.Event n)) : State n :=
  match client with
  | .handler i => s.setConnection i (handlerReturn (s.connection i) e)
  | .receiver i => s.setConnection i (receiverReturn (s.connection i) e)
  | .publisher _ => s
  | .main =>
      match s.main with
      | .unsubscribing => { s with main := .callFree }
      | .freeing =>
          { s with detachedSubscriptions := s.detachedSubscriptions.tail, main := .nextNode }
      | _ => s

/-- The client that takes a step inside the broker. -/
def clientNumber : MessageBroker.Action n → Option Nat
  | .dispatcher _ => none
  | .submit c => some c
  | .wait c => some c
  | .pool c _ => some c
  | .thread (.client c) _ => some c
  | .thread (.dispatcher _) _ => none

/-- The step is taken inside the broker: it is no call. -/
def isInside (b : MessageBroker.State n) : MessageBroker.Action n → Bool
  | .dispatcher _ => true
  | .submit _ => true
  | .wait _ => false
  | .pool _ _ => true
  | .thread t _ => b.pc t ≠ .idle

/-- A step of a thread inside the broker, with its return when it is outside again. -/
def State.inside (s : State n) (a : MessageBroker.Action n) : Option (State n × Option (Event n)) :=
  if isInside s.broker a then
    (MessageBroker.next s.broker a).map fun r =>
      let s' := { s with broker := r.1 }
      (match clientNumber a with
        | some c => if r.1.pc (.client c) = .idle then s'.returnTo (clientOf c) r.2 else s'
        | none => s', r.2.map .broker)
  else none

/-- `network_server_free`. -/
def State.networkServerFree (s : State n) : Option (State n × Option (Event n)) :=
  match s.main, s.detachedSubscriptions with
  | .serving, _ =>
      if ∀ i < s.nextConnection, (s.connection i).handler = .closed then
        some ({ s with running := false, main := .nextNode }, none)
      else none
  | .nextNode, [] => some ({ s with main := .freed }, none)
  | .nextNode, node :: _ =>
      (s.call .main (.callUnsubscribe node.2)).map fun r =>
        ({ r.1 with main := .unsubscribing }, r.2.map .broker)
  | .callFree, node :: _ =>
      (s.call .main (.callFree node.2)).map fun r =>
        ({ r.1 with main := .freeing }, r.2.map .broker)
  | _, _ => none

/-- The state after a step of a thread of the connection `i`. -/
def State.apply (s : State n) (i : Nat) (client : Client) :
    Outcome n → Option (State n × Option (Event n))
  | .step ctx registry e =>
      some ({ s.setConnection i ctx with detachedSubscriptions := registry }, e)
  | .call ctx move =>
      (s.call client move).map fun r =>
        (r.1.setConnection i ctx, r.2.map (callEvent i (s.connection i)))

/-- One step of the server. -/
def next (apiKey : Option CString) (s : State n) :
    Action n → Option (State n × Option (Event n))
  | .accept =>
      if s.running then
        some ({ s.setConnection s.nextConnection newConnection with
          nextConnection := s.nextConnection + 1 }, some (.accepted s.nextConnection))
      else none
  | .handler i move =>
      (clientHandler apiKey i s.running s.broker.shared s.detachedSubscriptions (s.connection i)
        (s.connection i).handler move).bind (s.apply i (.handler i))
  | .receiver i move =>
      (subscriberReceiverThread i s.detachedSubscriptions (s.connection i)
        (s.connection i).receiver move).bind (s.apply i (.receiver i))
  | .stop => some ({ s with running := false }, none)
  | .free => s.networkServerFree
  | .publish j channelName content =>
      (s.call (.publisher j) (.callPublish channelName content)).map fun r =>
        (r.1, r.2.map .broker)
  | .broker a => s.inside a

/-- The server as a machine. -/
def machine (n : Nat) (capacity : UInt64) (capacity_ne_zero : capacity ≠ 0)
    (apiKey : Option CString) : Machine (State n) (Action n) (Event n) where
  init := init capacity capacity_ne_zero
  next := next apiKey

end

end Miez.NetworkServer
