import Miez.MessageBroker

/-!
# `Miez.MessageBroker.Locks`: the broker with every mutex in sight

In `Miez.MessageBroker` one operation on a queue or on the channel table is one step. In the
source such an operation locks a mutex of its container first and unlocks it last:
`generic_queue_syn_*` the mutex of the queue, and `generic_hash_table_get` and
`generic_hash_table_insert` the mutex of the bucket. Nothing else is locked in between, so these
are the innermost mutexes, and they are called leaves here. This file splits the operation into
three steps: `acquire` locks the leaf, `step` does the step of the broker, and `release` unlocks
the leaf. The other mutexes are the ones of the broker's own state.

`_subscriber_proxy_new` locks the mutex of the new inbox in `generic_queue_syn_set_free_function`,
before any other thread knows the inbox. `newInbox t` is that mutex when `t` makes the proxy.

`waitsFor` is the mutex that a thread is about to lock, and `holder` the thread that holds a
mutex. Allocations succeed in this file.
-/

set_option autoImplicit false

namespace Miez.MessageBroker.Locks

open Miez.Lib
open Miez.ThreadPool (Tid)

/-- A mutex inside a container. -/
inductive Leaf (n : Nat) where
  | bucket (i : UInt64)
  | inboxQueue (x : Nat)
  | newInbox (t : Tid n)
  | poolQueue
deriving DecidableEq, Repr

/-- A mutex of the broker or of its pool. -/
inductive Mutex (n : Nat) where
  | pool
  | channels
  | channel (ch : Nat)
  | inbox (x : Nat)
  | leaf (l : Leaf n)
deriving DecidableEq, Repr

/-- Where a thread is in an operation of a container: outside of it, between the lock of the
leaf and the work, or between the work and the unlock. -/
inductive LeafPc (n : Nat) where
  | out
  | held (l : Leaf n)
  | done (l : Leaf n)
deriving DecidableEq, Repr

/-- A state of the broker with the leaves. -/
structure State (n : Nat) where
  broker : MessageBroker.State n
  leafHolder : Leaf n → Option (Tid n)
  leafPc : Tid n → LeafPc n

/-- One step of one thread. -/
inductive Action (n : Nat) where
  | acquire (t : Tid n)
  | step (a : MessageBroker.Action n)
  | release (t : Tid n)
deriving DecidableEq

section
variable {n : Nat}

/-- The thread that takes a step of the broker. -/
def actor : MessageBroker.Action n → Tid n
  | .dispatcher d => .dispatcher d
  | .submit c | .wait c | .pool c _ => .client c
  | .thread t _ => t

/-- No allocation of the step fails. -/
def succeeds : MessageBroker.Action n → Bool
  | .pool _ .fail | .thread _ .fail | .thread _ .failNode => false
  | _ => true

/-! ### The leaves -/

/-- The queue of the pool, at the operations on it. -/
def poolLeaf (pool : ThreadPool.State n PublisherTaskArg) : Tid n → Option (Leaf n)
  | .dispatcher d =>
      match pool.dispatcher d with
      | .testEmpty | .testEmptyExit | .dequeue => some .poolQueue
      | _ => none
  | .client c =>
      match pool.client c with
      | .submit (.enqueue _) | .wait .testEmpty => some .poolQueue
      | _ => none

/-- The bucket of the name, at the operations on the channel table. -/
def getChannelLeaf (sh : Shared n) (channelName : CString) : GetChannelPc → Option (Leaf n)
  | .get | .insert _ => some (.bucket (sh.channels.bucketIndex channelName))
  | _ => none

/-- The leaf of the operation that the thread does next. `generic_queue_syn_free` at the end of
`_subscriber_proxy_free` locks the queue too. -/
def leafOf (s : MessageBroker.State n) (t : Tid n) : Option (Leaf n) :=
  match s.pc t with
  | .idle | .inPool => poolLeaf s.pool t
  | .publish _ | .free _ => none
  | .publisherTask arg pc =>
      match pc with
      | .getChannel g => getChannelLeaf s.shared arg.channelName g
      | .enqueue _ _ x => some (.inboxQueue x)
      | _ => none
  | .subscribe channelName _ pc =>
      match pc with
      | .getChannel g => getChannelLeaf s.shared channelName g
      | .newProxy _ => some (.newInbox t)
      | .freeProxy x .release => some (.inboxQueue x)
      | _ => none
  | .unsubscribe k _ pc =>
      match pc with
      | .get => some (.bucket (s.shared.channels.bucketIndex (s.shared.subscription k).channelName))
      | .freeProxy _ _ x .release => some (.inboxQueue x)
      | _ => none
  | .receive _ _ pc =>
      match pc with
      | .testEmpty x | .tryEmpty x | .dequeue x => some (.inboxQueue x)
      | _ => none
  | .pendingCount k pc => if pc then (s.shared.subscription k).proxy.map .inboxQueue else none

/-! ### The other mutexes -/

/-- The mutex of the pool, where a thread is about to lock it. A thread that returns from
`pthread_cond_wait` locks it again. -/
def poolLock (pool : ThreadPool.State n PublisherTaskArg) : Tid n → Option (Mutex n)
  | .dispatcher d =>
      match pool.dispatcher d with
      | .lock | .lockDone => some .pool
      | .parked => if d ∈ pool.shared.newTask then none else some .pool
      | _ => none
  | .client c =>
      match pool.client c with
      | .submit (.lock _) | .wait .lock | .shutdown .lock => some .pool
      | .wait .parked => if c ∈ pool.shared.taskDone then none else some .pool
      | _ => none

/-- The mutex that the next step of the thread in the broker locks. -/
def lockOf (s : MessageBroker.State n) (t : Tid n) : Option (Mutex n) :=
  match s.pc t with
  | .idle | .inPool => poolLock s.pool t
  | .publish _ | .free _ | .pendingCount _ _ => none
  | .publisherTask _ pc =>
      match pc with
      | .getChannel .lock => some .channels
      | .lockChannel ch => some (.channel ch)
      | .lockInbox _ _ x => some (.inbox x)
      | _ => none
  | .subscribe _ _ pc =>
      match pc with
      | .getChannel .lock => some .channels
      | .lockChannel ch _ => some (.channel ch)
      | .freeProxy x .lock => some (.inbox x)
      | _ => none
  | .unsubscribe k _ pc =>
      match pc with
      | .lockInbox => (s.shared.subscription k).proxy.map .inbox
      | .lockChannels => some .channels
      | .lockChannel ch => some (.channel ch)
      | .freeProxy _ _ x .lock => some (.inbox x)
      | _ => none
  | .receive _ _ pc =>
      match pc with
      | .lock x => some (.inbox x)
      | .parked x => if t ∈ (s.shared.proxy x).inboxCond then none else some (.inbox x)
      | _ => none

/-- The mutex that the thread waits for: it locks a leaf before the step that needs it, and a
thread inside an operation of a container waits for nothing. -/
def waitsFor (s : State n) (t : Tid n) : Option (Mutex n) :=
  match s.leafPc t with
  | .out => ((leafOf s.broker t).map .leaf).or (lockOf s.broker t)
  | _ => none

/-- The thread that holds a mutex. -/
def holder (s : State n) : Mutex n → Option (Tid n)
  | .pool => s.broker.pool.shared.mutex
  | .channels => s.broker.shared.channelsMutex
  | .channel ch => (s.broker.shared.channel ch).mutex
  | .inbox x => (s.broker.shared.proxy x).inboxMutex
  | .leaf l => s.leafHolder l

/-! ### The machine -/

/-- One step of the broker with the leaves. -/
def next (s : State n) : Action n → Option (State n × Option (Event n))
  | .acquire t =>
      match s.leafPc t, leafOf s.broker t with
      | .out, some l =>
          if s.leafHolder l = none ∧ s.broker.faulted t = false then
            some ({ s with
              leafHolder := Function.update s.leafHolder l (some t)
              leafPc := Function.update s.leafPc t (.held l) }, none)
          else none
      | _, _ => none
  | .step a =>
      if succeeds a then
        match s.leafPc (actor a), leafOf s.broker (actor a) with
        | .out, none =>
            (MessageBroker.next s.broker a).map fun r => ({ s with broker := r.1 }, r.2)
        | .held l, _ =>
            (MessageBroker.next s.broker a).map fun r =>
              ({ s with
                broker := r.1
                leafPc := Function.update s.leafPc (actor a) (.done l) }, r.2)
        | _, _ => none
      else none
  | .release t =>
      match s.leafPc t with
      | .done l =>
          if s.broker.faulted t then none
          else some ({ s with
            leafHolder := Function.update s.leafHolder l none
            leafPc := Function.update s.leafPc t .out }, none)
      | _ => none

/-- The broker with the leaves as a machine. -/
def machine (n : Nat) (capacity : UInt64) (capacity_ne_zero : capacity ≠ 0) :
    Machine (State n) (Action n) (Event n) where
  init := ⟨MessageBroker.init capacity capacity_ne_zero, fun _ => none, fun _ => .out⟩
  next := next

end

end Miez.MessageBroker.Locks
