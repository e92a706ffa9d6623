import Miez.Construction
import Miez.MessageBroker

/-!
# `Miez.MessageBroker.Lifetime`: the broker up to its end

The machine of `Miez.MessageBroker` together with `message_broker_free`. The move `free c` is the
call by the client `c`, which goes on with `thread_pool_shutdown` inside `thread_pool_free`. While
the client waits there, the dispatchers still run tasks to their end. When the last dispatcher has
returned, no thread is left that knows the broker. What `message_broker_free` accesses and releases
is the script of `Miez.Construction` on what the broker contains then.

`Orderly` is what the callers of the library promise: no call is in progress when the broker is
freed. It also leaves out the failure of a list node in `generic_hash_table_insert`, after which a
bucket stays locked and the channel has been freed twice.
-/

set_option autoImplicit false

namespace Miez.MessageBroker

open Miez.Lib
open Miez.Construction (BrokerBlock ChannelContents)

/-- A broker, and whether `message_broker_free` has been called. -/
structure Life (n : Nat) where
  broker : State n
  freeing : Bool

/-- A step of the broker, or the call of `message_broker_free` by a client. -/
inductive LifeAction (n : Nat) where
  | broker (a : Action n)
  | free (c : Nat)
deriving DecidableEq

section
variable {n : Nat}

/-- The step is taken by a dispatcher, or by a client inside a function of the pool. -/
def belongsToPool : Action n → Bool
  | .dispatcher _ | .pool _ _ | .thread (.dispatcher _) _ => true
  | _ => false

/-- One step. -/
def Life.next (s : Life n) : LifeAction n → Option (Life n × Option (Event n))
  | .broker a =>
      if s.freeing = false ∨ belongsToPool a = true then
        (MessageBroker.next s.broker a).map fun r => ({ s with broker := r.1 }, r.2)
      else none
  | .free c =>
      if s.freeing = false ∧ s.broker.pc (.client c) = .idle then
        (ThreadPool.next s.broker.pool (.client c .callShutdown)).map fun r =>
          ({ broker := { s.broker with
              pool := r.1
              pc := Function.update s.broker.pc (.client c) .inPool }
             freeing := true }, r.2.map .pool)
      else none

/-- The broker with its end as a machine. -/
def lifetime (n : Nat) (capacity : UInt64) (capacity_ne_zero : capacity ≠ 0) :
    Machine (Life n) (LifeAction n) (Event n) where
  init := ⟨init capacity capacity_ne_zero, false⟩
  next := Life.next

/-- What the callers promise, and the list nodes of the table can be allocated. -/
def Orderly (s : Life n) : LifeAction n → Prop
  | .broker (.thread _ move) => move ≠ .failNode
  | .broker _ => True
  | .free _ => ∀ c, s.broker.pc (.client c) = .idle

/-! ### What the broker contains -/

/-- A channel with its proxies and the lengths of their inboxes. -/
def Shared.contents (sh : Shared n) (ch : Nat) : ChannelContents :=
  ⟨ch, (sh.channel ch).subscriberProxies.map fun x => (x, (sh.proxy x).inbox.length)⟩

/-- The channels in the bucket `i`. -/
def Shared.pairs (sh : Shared n) (i : Nat) : List ChannelContents :=
  (sh.channels.buckets (UInt64.ofNat i)).map fun pair => sh.contents pair.2

/-- `message_broker_free` on the broker. -/
def State.messageBrokerFree (s : State n) : Script BrokerBlock Int :=
  Construction.messageBrokerFree n s.pool.shared.queue.length s.shared.channels.capacity.toNat
    s.shared.pairs

end

end Miez.MessageBroker
