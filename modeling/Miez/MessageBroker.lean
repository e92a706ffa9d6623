import Mathlib
import Miez.CString
import Miez.GenericHashTable
import Miez.ThreadPool

/-!
# `Miez.MessageBroker`: the message broker as a state machine

`src/message_broker.c`. Client threads call the functions of the broker and of its
subscriptions. A publish becomes a task of the thread pool, and a dispatcher of the pool runs
`_publisher_task` for it. A state holds the pool, the objects of the broker and the program
point of every thread inside a broker function. One step of a thread is one mutex operation,
one condition-variable operation, one operation on a queue, on the channel table or on the
list of a channel, or one access to a field that another thread can write. The code before
the first such access belongs to the call.

Objects are allocated at the next free number of their table and stay there. `released` marks
an object whose memory has been given back. A thread that follows a pointer to such an object,
or a NULL pointer, is marked `faulted`: it stays where it is and takes no further step.

A move `fail` is an allocation that fails, and `failNode` is the failure of the list node in
`generic_hash_table_insert`, which has its own path. A move `wake` is a signal that wakes one
of the parked threads. The pool is not shut down, since only `message_broker_free` does that.

`publish` is the number of publishes that took an id before this one, and `channel` of a proxy
is the channel object it was made for. The code has neither.
-/

set_option autoImplicit false

namespace Miez.MessageBroker

open Miez.Lib
open Miez.ThreadPool (Tid)

/-- `struct message_t`. -/
structure Message where
  id : UInt64
  channelName : CString
  content : CString
  publish : Nat
deriving DecidableEq

/-- `struct _publisher_task_arg_t`. -/
structure PublisherTaskArg where
  messageId : UInt64
  channelName : CString
  content : CString
  publish : Nat
deriving DecidableEq

/-- `_message_new` on the fields of a task. -/
def PublisherTaskArg.message (arg : PublisherTaskArg) : Message :=
  ⟨arg.messageId, arg.channelName, arg.content, arg.publish⟩

/-- `struct subscriber_proxy_t`, with the holder of `_inbox_mutex` and the threads parked on
`_inbox_cond`. -/
structure SubscriberProxy (n : Nat) where
  id : UInt64
  inbox : GenericQueueSyn Message
  inboxMutex : Option (Tid n)
  inboxCond : Finset (Tid n)
  active : Bool
  released : Bool
  channel : Nat

/-- `struct subscription_t`. -/
structure Subscription where
  id : UInt64
  channelName : CString
  proxy : Option Nat
  active : Bool
  released : Bool
deriving DecidableEq

/-- `struct channel_t`, with the holder of `_mutex`. -/
structure Channel (n : Nat) where
  channelName : CString
  subscriberProxies : List Nat
  mutex : Option (Tid n)
  released : Bool

/-- `_string_hash`. -/
def stringHash (key : CString) : UInt64 :=
  key.bytes.foldl (fun hash byte => ((hash <<< 5) + hash) + byte.toUInt64) 5381

/-- The objects of the broker. -/
structure Shared (n : Nat) where
  channels : GenericHashTable CString Nat
  channelsMutex : Option (Tid n)
  nextSubscriberId : UInt64
  nextMessageId : UInt64
  channel : Nat → Channel n
  proxy : Nat → SubscriberProxy n
  subscription : Nat → Subscription
  nextChannel : Nat
  nextProxy : Nat
  nextSubscription : Nat
  nextPublish : Nat
  nextSubscribe : Nat

/-- The program points of the get-or-create of a channel, which `_publisher_task` and
`message_broker_subscribe` have in common. -/
inductive GetChannelPc where
  | lock
  | get
  | new
  | insert (ch : Nat)
  | unlock (ch : Nat)
  | freeUnlock (ch : Nat)
  | unlockFree (ch : Nat)
  | free (ch : Nat)
  | unlockFailed
deriving DecidableEq, Repr

/-- The program points of `_publisher_task`. At `next ch i` and after it, the iterator is at
the position `i` of the list of `ch`, and `x` is the proxy there. -/
inductive PublisherTaskPc where
  | getChannel (pc : GetChannelPc)
  | lockChannel (ch : Nat)
  | begin (ch : Nat)
  | next (ch i : Nat)
  | testActive (ch i x : Nat)
  | enqueue (ch i x : Nat)
  | lockInbox (ch i x : Nat)
  | signal (ch i x : Nat)
  | unlockInbox (ch i x : Nat)
  | unlockChannel (ch : Nat)
deriving DecidableEq, Repr

/-- The program points of `_subscriber_proxy_free`. -/
inductive ProxyFreePc where
  | deactivate
  | lock
  | broadcast
  | unlock
  | release
deriving DecidableEq, Repr

/-- The program points of `message_broker_subscribe`. -/
inductive SubscribePc where
  | getChannel (pc : GetChannelPc)
  | newProxy (ch : Nat)
  | lockChannel (ch x : Nat)
  | insertLast (ch x : Nat)
  | unlockChannel (ch x : Nat)
  | newSubscription (x : Nat)
  | unlockFailed (ch x : Nat)
  | freeProxy (x : Nat) (pc : ProxyFreePc)
deriving DecidableEq, Repr

/-- The program points of `subscription_unsubscribe`. -/
inductive UnsubscribePc where
  | testActive
  | testProxy
  | deactivate
  | lockInbox
  | broadcast
  | unlockInbox
  | lockChannels
  | get
  | lockChannel (ch : Nat)
  | search (ch : Nat)
  | freeProxy (ch i x : Nat) (pc : ProxyFreePc)
  | unlink (ch i : Nat)
  | unlockChannel (ch : Nat)
  | unlockChannels
  | clearActive
  | clearProxy
deriving DecidableEq, Repr

/-- The program points of `subscription_receive` and `subscription_try_receive`. -/
inductive ReceivePc where
  | testActive
  | testProxy
  | testProxyActive
  | load
  | lock (x : Nat)
  | testEmpty (x : Nat)
  | testActiveLoop (x : Nat)
  | condWait (x : Nat)
  | parked (x : Nat)
  | testActiveExit (x : Nat)
  | unlockInactive (x : Nat)
  | unlock (x : Nat)
  | tryEmpty (x : Nat)
  | dequeue (x : Nat)
deriving DecidableEq, Repr

/-- Where a thread is. `inPool` is a thread inside `thread_pool_submit` or `thread_pool_wait`;
the pool knows where. -/
inductive Pc where
  | idle
  | publish (arg : PublisherTaskArg)
  | inPool
  | publisherTask (arg : PublisherTaskArg) (pc : PublisherTaskPc)
  | subscribe (channelName : CString) (id : UInt64) (pc : SubscribePc)
  | unsubscribe (k : Nat) (thenFree : Bool) (pc : UnsubscribePc)
  | free (k : Nat)
  | receive (k : Nat) (tryReceive : Bool) (pc : ReceivePc)
  | pendingCount (k : Nat) (pc : Bool)
deriving DecidableEq

/-- What an observer sees. `publishCall` is the step of a publish that takes the message id,
`fanout` the step of a task that locks its channel, and `put` an enqueue into the inbox of the
proxy `x`. -/
inductive Event (n : Nat) where
  | pool (e : ThreadPool.Event n PublisherTaskArg)
  | publishCall (c : Nat) (arg : PublisherTaskArg)
  | publishFailed (t : Tid n) (arg : PublisherTaskArg)
  | subscribeCall (t : Tid n) (id : UInt64) (channelName : CString)
  | subscribed (t : Tid n) (k x : Nat) (channelName : CString)
  | subscribeFailed (t : Tid n)
  | unsubscribeCall (t : Tid n) (k : Nat)
  | unsubscribed (t : Tid n) (k : Nat) (code : Int)
  | freed (t : Tid n) (k : Nat)
  | fanout (t : Tid n) (ch : Nat) (arg : PublisherTaskArg)
  | put (t : Tid n) (x : Nat) (msg : Message)
  | got (t : Tid n) (k x : Nat) (msg : Option Message)
  | receiveFailed (t : Tid n) (k : Nat)
  | pending (t : Tid n) (k count : Nat)
deriving DecidableEq

/-- The move of a thread inside a broker function, or its next call. -/
inductive Move (n : Nat) where
  | go
  | fail
  | failNode
  | wake (t : Tid n)
  | callPublish (channelName content : CString)
  | callSubscribe (channelName : CString)
  | callUnsubscribe (k : Nat)
  | callFree (k : Nat)
  | callReceive (k : Nat) (tryReceive : Bool)
  | callPendingCount (k : Nat)
deriving DecidableEq

/-- One step: of a dispatcher outside its task, of a client inside the pool, or of a thread
inside a broker function. `submit` and `wait` are the calls of the two pool functions. -/
inductive Action (n : Nat) where
  | dispatcher (d : Fin n)
  | submit (c : Nat)
  | wait (c : Nat)
  | pool (c : Nat) (move : ThreadPool.ClientMove n PublisherTaskArg)
  | thread (t : Tid n) (move : Move n)
deriving DecidableEq

/-- A state of the broker, its pool and the threads that use it. -/
structure State (n : Nat) where
  pool : ThreadPool.State n PublisherTaskArg
  shared : Shared n
  pc : Tid n → Pc
  faulted : Tid n → Bool

/-- What a step of a thread inside a broker function does: it changes the objects and goes on,
or it follows a pointer to nothing. -/
inductive Outcome (n : Nat) where
  | step (sh : Shared n) (pc : Pc) (e : Option (Event n))
  | fault

section
variable {n : Nat}

/-! ### Operations on the objects -/

/-- `pthread_mutex_lock` on a mutex held by `holder`. -/
def lockMutex (t : Tid n) (holder : Option (Tid n)) : Option (Option (Tid n)) :=
  if holder = none then some (some t) else none

/-- `pthread_mutex_lock(&_channels_mutex)`. -/
def Shared.lockChannels (sh : Shared n) (t : Tid n) : Option (Shared n) :=
  (lockMutex t sh.channelsMutex).map fun m => { sh with channelsMutex := m }

/-- `pthread_mutex_unlock(&_channels_mutex)`. -/
def Shared.unlockChannels (sh : Shared n) : Shared n := { sh with channelsMutex := none }

/-- A write to the channel object `ch`. -/
def Shared.setChannel (sh : Shared n) (ch : Nat) (c : Channel n) : Shared n :=
  { sh with channel := Function.update sh.channel ch c }

/-- A write to the proxy object `x`. -/
def Shared.setProxy (sh : Shared n) (x : Nat) (p : SubscriberProxy n) : Shared n :=
  { sh with proxy := Function.update sh.proxy x p }

/-- A write to the subscription object `k`. -/
def Shared.setSubscription (sh : Shared n) (k : Nat) (sub : Subscription) : Shared n :=
  { sh with subscription := Function.update sh.subscription k sub }

/-- `pthread_mutex_lock(&ch->_mutex)`. -/
def Shared.lockChannel (sh : Shared n) (t : Tid n) (ch : Nat) : Option (Shared n) :=
  (lockMutex t (sh.channel ch).mutex).map fun m =>
    sh.setChannel ch { sh.channel ch with mutex := m }

/-- `pthread_mutex_unlock(&ch->_mutex)`. -/
def Shared.unlockChannel (sh : Shared n) (ch : Nat) : Shared n :=
  sh.setChannel ch { sh.channel ch with mutex := none }

/-- `pthread_mutex_lock(&proxy->_inbox_mutex)`. -/
def Shared.lockInbox (sh : Shared n) (t : Tid n) (x : Nat) : Option (Shared n) :=
  (lockMutex t (sh.proxy x).inboxMutex).map fun m =>
    sh.setProxy x { sh.proxy x with inboxMutex := m }

/-- `pthread_mutex_unlock(&proxy->_inbox_mutex)`. -/
def Shared.unlockInbox (sh : Shared n) (x : Nat) : Shared n :=
  sh.setProxy x { sh.proxy x with inboxMutex := none }

/-- `pthread_cond_broadcast(&proxy->_inbox_cond)`. -/
def Shared.broadcastInbox (sh : Shared n) (x : Nat) : Shared n :=
  sh.setProxy x { sh.proxy x with inboxCond := ∅ }

/-- `pthread_cond_signal(&proxy->_inbox_cond)`: one parked thread wakes up, if there is any. -/
def Shared.signalInbox (sh : Shared n) (x : Nat) : Move n → Option (Shared n)
  | .wake r =>
      if r ∈ (sh.proxy x).inboxCond then
        some (sh.setProxy x { sh.proxy x with inboxCond := (sh.proxy x).inboxCond.erase r })
      else none
  | .go => if (sh.proxy x).inboxCond = ∅ then some sh else none
  | _ => none

/-- `proxy->_active = 0`. -/
def Shared.deactivate (sh : Shared n) (x : Nat) : Shared n :=
  sh.setProxy x { sh.proxy x with active := false }

/-- `_channel_new` with a new channel object. -/
def Shared.newChannel (sh : Shared n) (channelName : CString) : Shared n :=
  { sh.setChannel sh.nextChannel ⟨channelName, [], none, false⟩ with
    nextChannel := sh.nextChannel + 1 }

/-- `_subscriber_proxy_new` with a new proxy object. -/
def Shared.newProxy (sh : Shared n) (id : UInt64) (ch : Nat) : Shared n :=
  { sh.setProxy sh.nextProxy ⟨id, [], none, ∅, true, false, ch⟩ with
    nextProxy := sh.nextProxy + 1 }

/-- The new subscription object at the end of `message_broker_subscribe`. -/
def Shared.newSubscription (sh : Shared n) (id : UInt64) (channelName : CString) (x : Nat) :
    Shared n :=
  { sh.setSubscription sh.nextSubscription ⟨id, channelName, some x, true, false⟩ with
    nextSubscription := sh.nextSubscription + 1 }

/-- The subscription `k` has been handed out and not been freed. -/
def Shared.usable (sh : Shared n) (k : Nat) : Bool :=
  k < sh.nextSubscription && !(sh.subscription k).released

/-- An access to the proxy object `x`, which is a fault when it has been released. -/
def Shared.deref (sh : Shared n) (x : Nat) (r : Option (Outcome n)) : Option (Outcome n) :=
  if (sh.proxy x).released then some .fault else r

/-- An access to the subscription object `k`, which is a fault when it has been released. -/
def Shared.derefSubscription (sh : Shared n) (k : Nat) (r : Option (Outcome n)) :
    Option (Outcome n) :=
  if (sh.subscription k).released then some .fault else r

/-- An access to the proxy object that `self->_proxy` points to. -/
def Shared.derefProxy (sh : Shared n) (k : Nat) (r : Nat → Option (Outcome n)) :
    Option (Outcome n) :=
  sh.derefSubscription k (match (sh.subscription k).proxy with
    | none => some .fault
    | some x => sh.deref x (r x))

/-! ### The get-or-create of a channel -/

/-- How a step of the get-or-create goes on. -/
inductive GetChannelResult where
  | more (pc : GetChannelPc)
  | found (ch : Nat)
  | failed
  | fault
deriving DecidableEq

/-- The get-or-create of a channel: lines 536 to 579 of `_publisher_task`, where `_channel_free`
comes after the unlock, and lines 804 to 832 of `message_broker_subscribe`, where it comes
before it (`freeFirst`). A failed `generic_hash_table_get` counts as an absent channel. -/
def getChannel (t : Tid n) (channelName : CString) (freeFirst : Bool) (sh : Shared n) :
    GetChannelPc → Move n → Option (Shared n × GetChannelResult)
  | .lock, .go => (sh.lockChannels t).map fun sh => (sh, .more .get)
  | .get, .go =>
      if sh.channels.locked (sh.channels.bucketIndex channelName) then none
      else some (sh, .more (match sh.channels.get channelName with
        | some ch => .unlock ch
        | none => .new))
  | .get, .fail =>
      if sh.channels.locked (sh.channels.bucketIndex channelName) then none
      else some (sh, .more .new)
  | .new, .go => some (sh.newChannel channelName, .more (.insert sh.nextChannel))
  | .new, .fail => some (sh, .more .unlockFailed)
  | .insert ch, .go =>
      if sh.channels.locked (sh.channels.bucketIndex channelName) then none
      else some ({ sh with channels := sh.channels.insert channelName ch }, .more (.unlock ch))
  | .insert ch, .fail => some (sh, .more (if freeFirst then .freeUnlock ch else .unlockFree ch))
  | .insert ch, .failNode =>
      -- The table frees the value, which is the channel, and keeps the bucket locked.
      if sh.channels.locked (sh.channels.bucketIndex channelName) then none
      else some ({ sh.setChannel ch { sh.channel ch with released := true } with
          channels := sh.channels.insertNoNode channelName },
        .more (if freeFirst then .freeUnlock ch else .unlockFree ch))
  | .unlock ch, .go => some (sh.unlockChannels, .found ch)
  | .freeUnlock ch, .go =>
      if (sh.channel ch).released then some (sh, .fault)
      else some (sh.setChannel ch { sh.channel ch with released := true }, .more .unlockFailed)
  | .unlockFree ch, .go => some (sh.unlockChannels, .more (.free ch))
  | .free ch, .go =>
      if (sh.channel ch).released then some (sh, .fault)
      else some (sh.setChannel ch { sh.channel ch with released := true }, .failed)
  | .unlockFailed, .go => some (sh.unlockChannels, .failed)
  | _, _ => none

/-! ### `_publisher_task` -/

/-- `_publisher_task`, with `_subscriber_proxy_enqueue` inside it. -/
def publisherTask (t : Tid n) (arg : PublisherTaskArg) (sh : Shared n) :
    PublisherTaskPc → Move n → Option (Outcome n)
  | .getChannel pc, move =>
      (getChannel t arg.channelName false sh pc move).map fun
        | (sh, .more pc) => .step sh (.publisherTask arg (.getChannel pc)) none
        | (sh, .found ch) => .step sh (.publisherTask arg (.lockChannel ch)) none
        | (sh, .failed) => .step sh .idle none
        | (_, .fault) => .fault
  | .lockChannel ch, .go =>
      (sh.lockChannel t ch).map fun sh =>
        .step sh (.publisherTask arg (.begin ch)) (some (.fanout t ch arg))
  | .begin ch, .go =>
      some (.step sh (.publisherTask arg
        (if (sh.channel ch).subscriberProxies.length = 0 then .unlockChannel ch
          else .next ch 0)) none)
  | .begin ch, .fail =>
      if (sh.channel ch).subscriberProxies.length = 0 then none
      else some (.step sh (.publisherTask arg (.unlockChannel ch)) none)
  | .next ch i, .go =>
      match (sh.channel ch).subscriberProxies[i]? with
      | none => some (.step sh (.publisherTask arg (.unlockChannel ch)) none)
      | some x => sh.deref x (some (.step sh (.publisherTask arg
          (if (sh.proxy x).active then .testActive ch i x else .next ch (i + 1))) none))
  | .testActive ch i x, .go =>
      sh.deref x (some (.step sh (.publisherTask arg
        (if (sh.proxy x).active then .enqueue ch i x else .next ch (i + 1))) none))
  -- The copy of the message could not be made.
  | .testActive ch i _, .fail => some (.step sh (.publisherTask arg (.next ch (i + 1))) none)
  | .enqueue ch i x, .go =>
      sh.deref x (some (.step
        (sh.setProxy x { sh.proxy x with inbox := (sh.proxy x).inbox.enqueue arg.message })
        (.publisherTask arg (.lockInbox ch i x)) (some (.put t x arg.message))))
  | .enqueue ch i _, .fail => some (.step sh (.publisherTask arg (.next ch (i + 1))) none)
  | .lockInbox ch i x, .go =>
      sh.deref x ((sh.lockInbox t x).map fun sh =>
        .step sh (.publisherTask arg (.signal ch i x)) none)
  | .signal ch i x, move =>
      sh.deref x ((sh.signalInbox x move).map fun sh =>
        .step sh (.publisherTask arg (.unlockInbox ch i x)) none)
  | .unlockInbox ch i x, .go =>
      sh.deref x (some (.step (sh.unlockInbox x) (.publisherTask arg (.next ch (i + 1))) none))
  | .unlockChannel ch, .go => some (.step (sh.unlockChannel ch) .idle none)
  | _, _ => none

/-! ### `message_broker_subscribe` -/

/-- How a step of `_subscriber_proxy_free` goes on. -/
inductive ProxyFreeResult where
  | more (pc : ProxyFreePc)
  | done
  | fault
deriving DecidableEq

/-- `_subscriber_proxy_free`. -/
def subscriberProxyFree (t : Tid n) (x : Nat) (sh : Shared n) (pc : ProxyFreePc) :
    Option (Shared n × ProxyFreeResult) :=
  if (sh.proxy x).released then some (sh, .fault)
  else match pc with
    | .deactivate => some (sh.deactivate x, .more .lock)
    | .lock => (sh.lockInbox t x).map fun sh => (sh, .more .broadcast)
    | .broadcast => some (sh.broadcastInbox x, .more .unlock)
    | .unlock => some (sh.unlockInbox x, .more .release)
    | .release => some (sh.setProxy x { sh.proxy x with released := true }, .done)

/-- `message_broker_subscribe` after the subscriber id has been taken. -/
def messageBrokerSubscribe (t : Tid n) (channelName : CString) (id : UInt64) (sh : Shared n) :
    SubscribePc → Move n → Option (Outcome n)
  | .getChannel pc, move =>
      (getChannel t channelName true sh pc move).map fun
        | (sh, .more pc) => .step sh (.subscribe channelName id (.getChannel pc)) none
        | (sh, .found ch) => .step sh (.subscribe channelName id (.newProxy ch)) none
        | (sh, .failed) => .step sh .idle (some (.subscribeFailed t))
        | (_, .fault) => .fault
  | .newProxy ch, .go =>
      some (.step (sh.newProxy id ch) (.subscribe channelName id (.lockChannel ch sh.nextProxy))
        none)
  | .newProxy _, .fail => some (.step sh .idle (some (.subscribeFailed t)))
  | .lockChannel ch x, .go =>
      (sh.lockChannel t ch).map fun sh =>
        .step sh (.subscribe channelName id (.insertLast ch x)) none
  | .insertLast ch x, .go =>
      some (.step (sh.setChannel ch { sh.channel ch with
          subscriberProxies := (sh.channel ch).subscriberProxies ++ [x] })
        (.subscribe channelName id (.unlockChannel ch x)) none)
  | .insertLast ch x, .fail =>
      some (.step sh (.subscribe channelName id (.unlockFailed ch x)) none)
  | .unlockFailed ch x, .go =>
      some (.step (sh.unlockChannel ch) (.subscribe channelName id (.freeProxy x .deactivate))
        none)
  | .freeProxy x pc, .go =>
      (subscriberProxyFree t x sh pc).map fun
        | (sh, .more pc) => .step sh (.subscribe channelName id (.freeProxy x pc)) none
        | (sh, .done) => .step sh .idle (some (.subscribeFailed t))
        | (_, .fault) => .fault
  | .unlockChannel ch x, .go =>
      some (.step (sh.unlockChannel ch) (.subscribe channelName id (.newSubscription x)) none)
  | .newSubscription x, .go =>
      some (.step (sh.newSubscription id channelName x) .idle
        (some (.subscribed t sh.nextSubscription x channelName)))
  -- The proxy stays in the list of its channel.
  | .newSubscription _, .fail => some (.step sh .idle (some (.subscribeFailed t)))
  | _, _ => none

/-! ### `subscription_unsubscribe` -/

/-- The return of `subscription_unsubscribe`, after which `subscription_free` goes on. -/
def unsubscribeReturn (t : Tid n) (k : Nat) (thenFree : Bool) (sh : Shared n) (code : Int) :
    Outcome n :=
  if thenFree then .step sh (.free k) none else .step sh .idle (some (.unsubscribed t k code))

/-- `subscription_unsubscribe`, also as a part of `subscription_free` (`thenFree`). -/
def subscriptionUnsubscribe (t : Tid n) (k : Nat) (thenFree : Bool) (sh : Shared n) :
    UnsubscribePc → Move n → Option (Outcome n)
  | .testActive, .go =>
      sh.derefSubscription k (some (if (sh.subscription k).active then
          .step sh (.unsubscribe k thenFree .testProxy) none
        else unsubscribeReturn t k thenFree sh 1))
  | .testProxy, .go =>
      sh.derefSubscription k (some (.step sh (.unsubscribe k thenFree
        (if (sh.subscription k).proxy = none then .lockChannels else .deactivate)) none))
  | .deactivate, .go => sh.derefProxy k fun x =>
      some (.step (sh.deactivate x) (.unsubscribe k thenFree .lockInbox) none)
  | .lockInbox, .go => sh.derefProxy k fun x =>
      (sh.lockInbox t x).map fun sh => .step sh (.unsubscribe k thenFree .broadcast) none
  | .broadcast, .go => sh.derefProxy k fun x =>
      some (.step (sh.broadcastInbox x) (.unsubscribe k thenFree .unlockInbox) none)
  | .unlockInbox, .go => sh.derefProxy k fun x =>
      some (.step (sh.unlockInbox x) (.unsubscribe k thenFree .lockChannels) none)
  | .lockChannels, .go =>
      (sh.lockChannels t).map fun sh => .step sh (.unsubscribe k thenFree .get) none
  | .get, .go => sh.derefSubscription k
      (if sh.channels.locked (sh.channels.bucketIndex (sh.subscription k).channelName) then none
      else some (.step sh (.unsubscribe k thenFree
        (match sh.channels.get (sh.subscription k).channelName with
          | some ch => .lockChannel ch
          | none => .unlockChannels)) none))
  | .get, .fail => sh.derefSubscription k
      (if sh.channels.locked (sh.channels.bucketIndex (sh.subscription k).channelName) then none
      else some (.step sh (.unsubscribe k thenFree .unlockChannels) none))
  | .lockChannel ch, .go =>
      (sh.lockChannel t ch).map fun sh => .step sh (.unsubscribe k thenFree (.search ch)) none
  | .search ch, .go => sh.derefSubscription k
      -- The first proxy of the list with the id of the subscription.
      (match (sh.channel ch).subscriberProxies.findIdx?
          (fun x => (sh.proxy x).id == (sh.subscription k).id) with
      | none => some (.step sh (.unsubscribe k thenFree (.unlockChannel ch)) none)
      | some i => some (.step sh (.unsubscribe k thenFree (.freeProxy ch i
          ((sh.channel ch).subscriberProxies.getD i 0) .deactivate)) none))
  | .search ch, .fail => some (.step sh (.unsubscribe k thenFree (.unlockChannel ch)) none)
  | .freeProxy ch i x pc, .go =>
      (subscriberProxyFree t x sh pc).map fun
        | (sh, .more pc) => .step sh (.unsubscribe k thenFree (.freeProxy ch i x pc)) none
        | (sh, .done) => .step sh (.unsubscribe k thenFree (.unlink ch i)) none
        | (_, .fault) => .fault
  | .unlink ch i, .go =>
      some (.step (sh.setChannel ch { sh.channel ch with
          subscriberProxies := (sh.channel ch).subscriberProxies.eraseIdx i })
        (.unsubscribe k thenFree (.unlockChannel ch)) none)
  | .unlockChannel ch, .go =>
      some (.step (sh.unlockChannel ch) (.unsubscribe k thenFree .unlockChannels) none)
  | .unlockChannels, .go =>
      some (.step sh.unlockChannels (.unsubscribe k thenFree .clearActive) none)
  | .clearActive, .go => sh.derefSubscription k
      (some (.step (sh.setSubscription k { sh.subscription k with active := false })
        (.unsubscribe k thenFree .clearProxy) none))
  | .clearProxy, .go => sh.derefSubscription k
      (some (unsubscribeReturn t k thenFree
        (sh.setSubscription k { sh.subscription k with proxy := none }) 0))
  | _, _ => none

/-! ### `subscription_receive` and the other reads of a subscription -/

/-- `subscription_receive` and `subscription_try_receive`. They have their tests of the
subscription in common. -/
def subscriptionReceive (t : Tid n) (k : Nat) (tryReceive : Bool) (sh : Shared n) :
    ReceivePc → Move n → Option (Outcome n)
  | .testActive, .go => sh.derefSubscription k (some (if (sh.subscription k).active then
        .step sh (.receive k tryReceive .testProxy) none
      else .step sh .idle (some (.receiveFailed t k))))
  | .testProxy, .go => sh.derefSubscription k (some (if (sh.subscription k).proxy = none then
        .step sh .idle (some (.receiveFailed t k))
      else .step sh (.receive k tryReceive .testProxyActive) none))
  | .testProxyActive, .go => sh.derefProxy k fun x => some (if (sh.proxy x).active then
        .step sh (.receive k tryReceive .load) none
      else .step sh .idle (some (.receiveFailed t k)))
  | .load, .go => sh.derefSubscription k (match (sh.subscription k).proxy with
      | none => some .fault
      | some x => some (.step sh
          (.receive k tryReceive (if tryReceive then .tryEmpty x else .lock x)) none))
  | .lock x, .go => sh.deref x ((sh.lockInbox t x).map fun sh =>
      .step sh (.receive k tryReceive (.testEmpty x)) none)
  | .testEmpty x, .go => sh.deref x (some (.step sh (.receive k tryReceive
      (if (sh.proxy x).inbox.isEmpty then .testActiveLoop x else .testActiveExit x)) none))
  | .testActiveLoop x, .go => sh.deref x (some (.step sh (.receive k tryReceive
      (if (sh.proxy x).active then .condWait x else .testActiveExit x)) none))
  | .condWait x, .go => sh.deref x (some (.step
      (sh.setProxy x { sh.proxy x with
        inboxMutex := none, inboxCond := insert t (sh.proxy x).inboxCond })
      (.receive k tryReceive (.parked x)) none))
  | .parked x, .go => sh.deref x
      (if t ∈ (sh.proxy x).inboxCond then
        some (.step
          (sh.setProxy x { sh.proxy x with inboxCond := (sh.proxy x).inboxCond.erase t })
          (.receive k tryReceive (.parked x)) none)
      else (sh.lockInbox t x).map fun sh =>
        .step sh (.receive k tryReceive (.testEmpty x)) none)
  | .testActiveExit x, .go => sh.deref x (some (.step sh (.receive k tryReceive
      (if (sh.proxy x).active then .unlock x else .unlockInactive x)) none))
  | .unlockInactive x, .go => sh.deref x
      (some (.step (sh.unlockInbox x) .idle (some (.receiveFailed t k))))
  | .unlock x, .go => sh.deref x
      (some (.step (sh.unlockInbox x) (.receive k tryReceive (.dequeue x)) none))
  | .tryEmpty x, .go => sh.deref x (some (if (sh.proxy x).inbox.isEmpty then
        .step sh .idle (some (.receiveFailed t k))
      else .step sh (.receive k tryReceive (.dequeue x)) none))
  | .dequeue x, .go =>
      -- An empty inbox gives the code 0 with `*out_msg == NULL`.
      sh.deref x (some (.step
        (sh.setProxy x { sh.proxy x with inbox := (sh.proxy x).inbox.dequeue.2 }) .idle
        (some (.got t k x (sh.proxy x).inbox.dequeue.1))))
  | _, _ => none

/-- `subscription_get_pending_count`. The second program point (`true`) is after the test of
`self->_proxy`. -/
def subscriptionGetPendingCount (t : Tid n) (k : Nat) (sh : Shared n) :
    Bool → Option (Outcome n)
  | false => sh.derefSubscription k (some (if (sh.subscription k).proxy = none then
        .step sh .idle (some (.pending t k 0))
      else .step sh (.pendingCount k true) none))
  | true => sh.derefProxy k fun x =>
      some (.step sh .idle (some (.pending t k (sh.proxy x).inbox.size)))

/-! ### The machine -/

/-- A call by an idle client. A subscription is used only after `message_broker_subscribe` has
returned it and before it is freed. -/
def call (c : Nat) (sh : Shared n) : Move n → Option (Outcome n)
  | .callPublish channelName content =>
      let arg : PublisherTaskArg := ⟨sh.nextMessageId, channelName, content, sh.nextPublish⟩
      some (.step { sh with nextMessageId := sh.nextMessageId + 1,
                            nextPublish := sh.nextPublish + 1 }
        (.publish arg) (some (.publishCall c arg)))
  | .callSubscribe channelName =>
      some (.step { sh with nextSubscriberId := sh.nextSubscriberId + 1,
                            nextSubscribe := sh.nextSubscribe + 1 }
        (.subscribe channelName sh.nextSubscriberId (.getChannel .lock))
        (some (.subscribeCall (.client c) sh.nextSubscriberId channelName)))
  | .callUnsubscribe k =>
      if sh.usable k then
        some (.step sh (.unsubscribe k false .testActive) (some (.unsubscribeCall (.client c) k)))
      else none
  | .callFree k =>
      if sh.usable k then
        some (if (sh.subscription k).active then
            .step sh (.unsubscribe k true .testActive) (some (.unsubscribeCall (.client c) k))
          else .step sh (.free k) none)
      else none
  | .callReceive k tryReceive =>
      if sh.usable k then some (.step sh (.receive k tryReceive .testActive) none) else none
  | .callPendingCount k =>
      if sh.usable k then some (.step sh (.pendingCount k false) none) else none
  | _ => none

/-- The step of a thread inside a broker function, or its next call. -/
def threadFunction (t : Tid n) (sh : Shared n) : Pc → Move n → Option (Outcome n)
  | .idle, move =>
      match t with
      | .client c => call c sh move
      | .dispatcher _ => none
  -- The copies of the two strings could not be made.
  | .publish arg, .fail => some (.step sh .idle (some (.publishFailed t arg)))
  | .publisherTask arg pc, move => publisherTask t arg sh pc move
  | .subscribe channelName id pc, move => messageBrokerSubscribe t channelName id sh pc move
  | .unsubscribe k thenFree pc, move => subscriptionUnsubscribe t k thenFree sh pc move
  | .free k, .go => sh.derefSubscription k
      (some (.step (sh.setSubscription k { sh.subscription k with released := true }) .idle
        (some (.freed t k))))
  | .receive k tryReceive pc, move => subscriptionReceive t k tryReceive sh pc move
  | .pendingCount k pc, .go => subscriptionGetPendingCount t k sh pc
  | _, _ => none

/-- The broker after `message_broker_new` with a table of `capacity` buckets. -/
def init (capacity : UInt64) (capacity_ne_zero : capacity ≠ 0) : State n where
  pool := ThreadPool.init
  shared :=
    { channels := .new capacity capacity_ne_zero stringHash CString.strcmp
      channelsMutex := none
      nextSubscriberId := 1
      nextMessageId := 1
      channel := fun _ => ⟨⟨[], by simp⟩, [], none, false⟩
      proxy := fun _ => ⟨0, [], none, ∅, false, false, 0⟩
      subscription := fun _ => ⟨0, ⟨[], by simp⟩, none, false, false⟩
      nextChannel := 0
      nextProxy := 0
      nextSubscription := 0
      nextPublish := 0
      nextSubscribe := 0 }
  pc := fun _ => .idle
  faulted := fun _ => false

/-- The program point of a dispatcher after a step of the pool: a call of a task's function
enters `_publisher_task`. -/
def dispatcherPc : Option (ThreadPool.Event n PublisherTaskArg) → Pc
  | some (.called _ task) => .publisherTask task.arg (.getChannel .lock)
  | _ => .idle

/-- One step of the broker. A dispatcher leaves `_publisher_task` when its program point there
is `idle` again. -/
def next (s : State n) : Action n → Option (State n × Option (Event n))
  | .dispatcher d =>
      if s.pc (.dispatcher d) = .idle then
        (ThreadPool.next s.pool (.dispatcher d)).map fun r =>
          ({ s with pool := r.1, pc := Function.update s.pc (.dispatcher d) (dispatcherPc r.2) },
            r.2.map .pool)
      else none
  | .submit c =>
      match s.pc (.client c) with
      | .publish arg =>
          (ThreadPool.next s.pool (.client c (.callSubmit arg))).map fun r =>
            ({ s with pool := r.1, pc := Function.update s.pc (.client c) .inPool },
              r.2.map .pool)
      | _ => none
  | .wait c =>
      if s.pc (.client c) = .idle then
        (ThreadPool.next s.pool (.client c .callWait)).map fun r =>
          ({ s with pool := r.1, pc := Function.update s.pc (.client c) .inPool }, r.2.map .pool)
      else none
  | .pool c move =>
      if s.pc (.client c) = .inPool then
        (ThreadPool.next s.pool (.client c move)).map fun r =>
          ({ s with
              pool := r.1
              pc := Function.update s.pc (.client c)
                (if r.1.client c = .idle then .idle else .inPool) }, r.2.map .pool)
      else none
  | .thread t move =>
      if s.faulted t then none
      else (threadFunction t s.shared (s.pc t) move).map fun
        | .step sh pc e => ({ s with shared := sh, pc := Function.update s.pc t pc }, e)
        | .fault => ({ s with faulted := Function.update s.faulted t true }, none)

/-- The broker as a machine. -/
def machine (n : Nat) (capacity : UInt64) (capacity_ne_zero : capacity ≠ 0) :
    Machine (State n) (Action n) (Event n) where
  init := init capacity capacity_ne_zero
  next := next

end

end Miez.MessageBroker
