import Miez.Lib.Resources

/-!
# `Miez.Construction`: how the objects are made and destroyed

The constructors and destructors of all modules, as scripts over the blocks of memory, mutexes,
condition variables, threads and descriptors that they acquire and release. Every call that can
fail gives a code, and each error path releases what the source releases there, in its order.

A block is named by its place in the object. The objects inside a list or a queue are destroyed by
the free function of the list. The arguments are not NULL.
-/

set_option autoImplicit false

namespace Miez.Construction

open Miez.Lib
open Miez.Lib.Script (acquire release releaseAll use call)

/-! ### `generic_linked_list`, `generic_queue` and `generic_queue_syn` -/

/-- The blocks of a `generic_linked_list`. A node is known by its position. -/
inductive ListBlock where
  | self
  | headGuard
  | tailGuard
  | node (i : Nat)
deriving DecidableEq

/-- The blocks of a `generic_queue`. -/
inductive QueueBlock where
  | self
  | list (b : ListBlock)
deriving DecidableEq

/-- The blocks of a `generic_queue_syn`. -/
inductive QueueSynBlock where
  | self
  | queue (b : QueueBlock)
  | mutex
deriving DecidableEq

section
variable {ρ α : Type}

/-- `generic_linked_list_new`. Both guards are allocated before the test. -/
def genericLinkedListNew : Script ListBlock Int := do
  let self ← acquire .self
  if self ≠ 0 then pure (-1)
  else do
    let headGuard ← acquire .headGuard
    let tailGuard ← acquire .tailGuard
    if headGuard ≠ 0 ∨ tailGuard ≠ 0 then do
      releaseAll ((if headGuard = 0 then [.headGuard] else []) ++
        (if tailGuard = 0 then [.tailGuard] else []) ++ [.self])
      pure (-1)
    else pure 0

/-- The loop of `generic_linked_list_free` from the node `i` on. -/
def freeNodes (freeFunction : α → Script ρ Unit) (block : ListBlock → ρ) :
    Nat → List α → Script ρ Unit
  | _, [] => pure ()
  | i, data :: rest => do
      freeFunction data
      release (block (.node i))
      freeNodes freeFunction block (i + 1) rest

/-- `generic_linked_list_free` on a list with the data `data`. -/
def genericLinkedListFree (freeFunction : α → Script ρ Unit) (block : ListBlock → ρ)
    (data : List α) : Script ρ Unit := do
  freeNodes freeFunction block 0 data
  releaseAll [block .headGuard, block .tailGuard, block .self]

/-- A list without a free function. -/
def noFreeFunction (_ : α) : Script ρ Unit := pure ()

/-- `generic_queue_new`. -/
def genericQueueNew : Script QueueBlock Int := do
  let self ← acquire .self
  if self ≠ 0 then pure (-1)
  else do
    let code ← genericLinkedListNew.relabel .list
    if code ≠ 0 then do
      release .self
      pure code
    else pure 0

/-- `generic_queue_free`. -/
def genericQueueFree (freeFunction : α → Script ρ Unit) (block : QueueBlock → ρ)
    (data : List α) : Script ρ Unit := do
  genericLinkedListFree freeFunction (fun b => block (.list b)) data
  release (block .self)

/-- `generic_queue_syn_new`. -/
def genericQueueSynNew : Script QueueSynBlock Int := do
  let self ← acquire .self
  if self ≠ 0 then pure (-1)
  else do
    let code ← genericQueueNew.relabel .queue
    if code ≠ 0 then do
      release .self
      pure (-1)
    else do
      let code ← acquire .mutex
      if code ≠ 0 then do
        genericQueueFree noFreeFunction .queue ([] : List Unit)
        release .self
        pure (-1)
      else pure 0

/-- `generic_queue_syn_free`. -/
def genericQueueSynFree (freeFunction : α → Script ρ Unit) (block : QueueSynBlock → ρ)
    (data : List α) : Script ρ Unit := do
  use (block .mutex)
  genericQueueFree freeFunction (fun b => block (.queue b)) data
  use (block .mutex)
  releaseAll [block .mutex, block .self]

end

/-! ### `thread_pool` -/

/-- The blocks of a `thread_pool_t`. A task is known by its position in the queue. -/
inductive PoolBlock where
  | self
  | queueSyn (b : QueueSynBlock)
  | mutexMemory
  | mutex
  | newTaskMemory
  | newTask
  | taskDoneMemory
  | taskDone
  | dispatcherThreads
  | thread (i : Nat)
  | task (i : Nat)
deriving DecidableEq

/-- The end of every error path of `thread_pool_new`: the blocks in their order, and then the queue
and `self`. -/
def undoPool (blocks : List PoolBlock) : Script PoolBlock Unit := do
  releaseAll blocks
  genericQueueSynFree noFreeFunction .queueSyn ([] : List Unit)
  release .self

/-- `pthread_mutex_lock`, `pthread_cond_broadcast(_new_task)` and `pthread_mutex_unlock`. -/
def wakeDispatchers : Script PoolBlock Unit := do
  use .mutex
  use .newTask
  use .mutex

/-- The loop of `thread_pool_new` from the thread `i` on. When a thread cannot be created, those
before it are told to stop and joined. -/
def createThreads (i : Nat) : Nat → Script PoolBlock Int
  | 0 => pure 0
  | rest + 1 => do
      let code ← acquire (.thread i)
      if code ≠ 0 then do
        wakeDispatchers
        releaseAll ((List.range i).map .thread)
        undoPool [.dispatcherThreads, .taskDone, .taskDoneMemory, .newTask, .newTaskMemory, .mutex,
          .mutexMemory]
        pure code
      else createThreads (i + 1) rest

/-- `thread_pool_new`. -/
def threadPoolNew (nThreads : Nat) : Script PoolBlock Int :=
  if nThreads = 0 then pure 1
  else do
    let self ← acquire .self
    if self ≠ 0 then pure (-1)
    else do
      let code ← genericQueueSynNew.relabel .queueSyn
      if code ≠ 0 then do
        release .self
        pure code
      else do
        let mutexMemory ← acquire .mutexMemory
        if mutexMemory ≠ 0 then do
          undoPool []
          pure (-1)
        else do
          let code ← acquire .mutex
          if code ≠ 0 then do
            undoPool [.mutexMemory]
            pure code
          else do
            let newTaskMemory ← acquire .newTaskMemory
            if newTaskMemory ≠ 0 then do
              undoPool [.mutex, .mutexMemory]
              pure (-1)
            else do
              let code ← acquire .newTask
              if code ≠ 0 then do
                undoPool [.newTaskMemory, .mutex, .mutexMemory]
                pure code
              else do
                let taskDoneMemory ← acquire .taskDoneMemory
                if taskDoneMemory ≠ 0 then do
                  undoPool [.newTask, .newTaskMemory, .mutex, .mutexMemory]
                  pure (-1)
                else do
                  let code ← acquire .taskDone
                  if code ≠ 0 then do
                    undoPool [.taskDoneMemory, .newTask, .newTaskMemory, .mutex, .mutexMemory]
                    pure code
                  else do
                    let dispatcherThreads ← acquire .dispatcherThreads
                    if dispatcherThreads ≠ 0 then do
                      undoPool [.taskDone, .taskDoneMemory, .newTask, .newTaskMemory, .mutex,
                        .mutexMemory]
                      pure (-1)
                    else createThreads 0 nThreads

/-- The loop of `thread_pool_free` over the tasks that are left in the queue. -/
def freeTasks (i : Nat) : Nat → Script PoolBlock Unit
  | 0 => pure ()
  | rest + 1 => do
      use (.queueSyn .mutex)
      release (.queueSyn (.queue (.list (.node i))))
      release (.task i)
      freeTasks (i + 1) rest

/-- `thread_pool_free`, with the `thread_pool_shutdown` inside it, when `tasks` tasks have not been
taken by a dispatcher. The arguments of these tasks stay. -/
def threadPoolFree (nThreads tasks : Nat) : Script PoolBlock Unit := do
  wakeDispatchers
  releaseAll ((List.range nThreads).map .thread)
  freeTasks 0 tasks
  releaseAll [.mutex, .mutexMemory, .newTask, .newTaskMemory, .taskDone, .taskDoneMemory]
  genericQueueSynFree noFreeFunction .queueSyn ([] : List Unit)
  releaseAll [.dispatcherThreads, .self]

/-! ### `generic_hash_table` -/

/-- The blocks of a `generic_hash_table`. `pair i j` is the pair at the position `j` of the bucket
`i`, and `iterator` the iterator of `generic_hash_table_free`. -/
inductive TableBlock where
  | self
  | buckets
  | mutexes
  | bucket (i : Nat) (b : ListBlock)
  | mutex (i : Nat)
  | pair (i j : Nat)
  | iterator
deriving DecidableEq

/-- A loop of `generic_hash_table_new` over the buckets from `j` on that have been made. -/
def freeBuckets (j : Nat) : Nat → Script TableBlock Unit
  | 0 => pure ()
  | rest + 1 => do
      genericLinkedListFree noFreeFunction (.bucket j) ([] : List Unit)
      release (.mutex j)
      freeBuckets (j + 1) rest

/-- The loop of `generic_hash_table_new` from the bucket `i` on. -/
def createBuckets (i : Nat) : Nat → Script TableBlock Int
  | 0 => pure 0
  | rest + 1 => do
      let code ← genericLinkedListNew.relabel (.bucket i)
      if code ≠ 0 then do
        freeBuckets 0 i
        releaseAll [.mutexes, .buckets, .self]
        pure (-1)
      else do
        let code ← acquire (.mutex i)
        if code ≠ 0 then do
          genericLinkedListFree noFreeFunction (.bucket i) ([] : List Unit)
          freeBuckets 0 i
          releaseAll [.mutexes, .buckets, .self]
          pure (-1)
        else createBuckets (i + 1) rest

/-- `generic_hash_table_new`. When one of the two arrays cannot be allocated, nothing is
released. -/
def genericHashTableNew (capacity : Nat) : Script TableBlock Int :=
  if capacity = 0 then pure 1
  else do
    let self ← acquire .self
    if self ≠ 0 then pure (-1)
    else do
      let buckets ← acquire .buckets
      if buckets ≠ 0 then pure (-1)
      else do
        let mutexes ← acquire .mutexes
        if mutexes ≠ 0 then pure (-1)
        else createBuckets 0 capacity

section
variable {ρ α : Type}

/-- The loop of `generic_hash_table_free` over the pairs of the bucket `i`, from `j` on. `freePair`
frees the key and the value. -/
def freePairs (freePair : α → Script ρ Unit) (block : TableBlock → ρ) (i : Nat) :
    Nat → List α → Script ρ Unit
  | _, [] => pure ()
  | j, pair :: rest => do
      freePair pair
      release (block (.pair i j))
      freePairs freePair block i (j + 1) rest

/-- The loop of `generic_hash_table_free` from the bucket `i` on. The pairs of a bucket stay when
its iterator cannot be allocated. -/
def freeTableBuckets (freePair : α → Script ρ Unit) (block : TableBlock → ρ)
    (pairs : Nat → List α) (i : Nat) (firstError : Int) : Nat → Script ρ Int
  | 0 => pure firstError
  | rest + 1 => do
      use (block (.mutex i))
      let code ← acquire (block .iterator)
      if code ≠ 0 then do
        genericLinkedListFree noFreeFunction (fun b => block (.bucket i b)) (pairs i)
        use (block (.mutex i))
        release (block (.mutex i))
        freeTableBuckets freePair block pairs (i + 1) (if firstError = 0 then -1 else firstError)
          rest
      else do
        freePairs freePair block i 0 (pairs i)
        release (block .iterator)
        genericLinkedListFree noFreeFunction (fun b => block (.bucket i b)) (pairs i)
        use (block (.mutex i))
        release (block (.mutex i))
        freeTableBuckets freePair block pairs (i + 1) firstError rest

/-- `generic_hash_table_free` on a table with the pairs `pairs i` in the bucket `i`. -/
def genericHashTableFree (freePair : α → Script ρ Unit) (block : TableBlock → ρ)
    (capacity : Nat) (pairs : Nat → List α) : Script ρ Int := do
  let firstError ← freeTableBuckets freePair block pairs 0 0 capacity
  releaseAll [block .buckets, block .mutexes, block .self]
  pure firstError

end

/-! ### `message_broker` -/

/-- The blocks of a `message_t`, and those of a `_publisher_task_arg_t`. -/
inductive MessageBlock where
  | self
  | channelName
  | content
deriving DecidableEq

/-- The blocks of a `subscriber_proxy_t`. A message is known by its position in the inbox. -/
inductive ProxyBlock where
  | self
  | inbox (b : QueueSynBlock)
  | inboxMutex
  | inboxCond
  | message (i : Nat) (b : MessageBlock)
deriving DecidableEq

/-- The blocks of a `channel_t`. -/
inductive ChannelBlock where
  | self
  | channelName
  | subscriberProxies (b : ListBlock)
  | mutex
deriving DecidableEq

/-- The blocks of a `message_broker_t`. `key ch` is the copy of the name under which the table has
the channel `ch`, and `arg i` the argument of the task at the position `i` of the queue. -/
inductive BrokerBlock where
  | self
  | publisherPool (b : PoolBlock)
  | channels (b : TableBlock)
  | channelsMutex
  | key (ch : Nat)
  | channel (ch : Nat) (b : ChannelBlock)
  | proxy (x : Nat) (b : ProxyBlock)
  | arg (i : Nat) (b : MessageBlock)
deriving DecidableEq

/-- `_message_new`, and the allocations of `message_broker_publish`. -/
def messageNew : Script MessageBlock Int := do
  let self ← acquire .self
  if self ≠ 0 then pure (-1)
  else do
    let channelName ← acquire .channelName
    if channelName ≠ 0 then do
      release .self
      pure (-1)
    else do
      let content ← acquire .content
      if content ≠ 0 then do
        releaseAll [.channelName, .self]
        pure (-1)
      else pure 0

/-- `_subscriber_proxy_new`. -/
def subscriberProxyNew : Script ProxyBlock Int := do
  let self ← acquire .self
  if self ≠ 0 then pure (-1)
  else do
    let code ← genericQueueSynNew.relabel .inbox
    if code ≠ 0 then do
      release .self
      pure code
    else do
      let code ← acquire .inboxMutex
      if code ≠ 0 then do
        genericQueueSynFree noFreeFunction .inbox ([] : List Unit)
        release .self
        pure code
      else do
        let code ← acquire .inboxCond
        if code ≠ 0 then do
          release .inboxMutex
          genericQueueSynFree noFreeFunction .inbox ([] : List Unit)
          release .self
          pure code
        else pure 0

/-- `_channel_new`. -/
def channelNew : Script ChannelBlock Int := do
  let self ← acquire .self
  if self ≠ 0 then pure (-1)
  else do
    let channelName ← acquire .channelName
    if channelName ≠ 0 then do
      release .self
      pure (-1)
    else do
      let code ← genericLinkedListNew.relabel .subscriberProxies
      if code ≠ 0 then do
        releaseAll [.channelName, .self]
        pure code
      else do
        let code ← acquire .mutex
        if code ≠ 0 then do
          genericLinkedListFree noFreeFunction .subscriberProxies ([] : List Unit)
          releaseAll [.channelName, .self]
          pure code
        else pure 0

/-- `message_broker_new`. -/
def messageBrokerNew (nThreads capacity : Nat) : Script BrokerBlock Int :=
  if nThreads = 0 then pure 1
  else if capacity = 0 then pure 1
  else do
    let self ← acquire .self
    if self ≠ 0 then pure (-1)
    else do
      let code ← (threadPoolNew nThreads).relabel .publisherPool
      if code ≠ 0 then do
        release .self
        pure code
      else do
        let code ← (genericHashTableNew capacity).relabel .channels
        if code ≠ 0 then do
          (threadPoolFree nThreads 0).relabel .publisherPool
          release .self
          pure code
        else do
          let code ← acquire .channelsMutex
          if code ≠ 0 then do
            let _ ← genericHashTableFree noFreeFunction .channels capacity fun _ => ([] : List Unit)
            (threadPoolFree nThreads 0).relabel .publisherPool
            release .self
            pure code
          else pure 0

section
variable {ρ : Type}

/-- `message_free`. -/
def messageFree (block : MessageBlock → ρ) : Script ρ Unit :=
  releaseAll [block .channelName, block .content, block .self]

/-- `_subscriber_proxy_free` on a proxy with `messages` messages in its inbox. -/
def subscriberProxyFree (block : ProxyBlock → ρ) (messages : Nat) : Script ρ Unit := do
  use (block .inboxMutex)
  use (block .inboxCond)
  use (block .inboxMutex)
  genericQueueSynFree (fun i => messageFree fun b => block (.message i b))
    (fun b => block (.inbox b)) (List.range messages)
  releaseAll [block .inboxMutex, block .inboxCond, block .self]

/-- `_channel_free` on a channel with the proxies `proxies`. `freeFunction` is the free function of
the list. -/
def channelFree {α : Type} (freeFunction : α → Script ρ Unit) (block : ChannelBlock → ρ)
    (proxies : List α) : Script ρ Unit := do
  use (block .mutex)
  genericLinkedListFree freeFunction (fun b => block (.subscriberProxies b)) proxies
  release (block .channelName)
  use (block .mutex)
  releaseAll [block .mutex, block .self]

end

/-- What the table of a broker has for one name: the channel, and its proxies with the lengths of
their inboxes. -/
structure ChannelContents where
  channel : Nat
  proxies : List (Nat × Nat)
deriving DecidableEq

/-- `_string_free` on the key of a pair, and `_channel_free_wrapper` on its value. -/
def freeChannelPair (contents : ChannelContents) : Script BrokerBlock Unit := do
  release (.key contents.channel)
  channelFree (fun (proxy : Nat × Nat) => subscriberProxyFree (.proxy proxy.1) proxy.2)
    (.channel contents.channel) contents.proxies

/-- `message_broker_free`, when `tasks` tasks have not been taken by a dispatcher and the bucket `i`
of the table has the channels `pairs i`. -/
def messageBrokerFree (nThreads tasks capacity : Nat) (pairs : Nat → List ChannelContents) :
    Script BrokerBlock Int := do
  (threadPoolFree nThreads tasks).relabel .publisherPool
  let _ ← genericHashTableFree freeChannelPair .channels capacity pairs
  releaseAll [.channelsMutex, .self]
  pure 0

/-! ### `network_server` -/

/-- The blocks of a `network_server_t`, with the nodes of `_detached_subscriptions` and the
subscriptions that they hold. -/
inductive ServerBlock where
  | self
  | apiKey
  | detachedMutex
  | sslCtx
  | serverFd
  | acceptThread
  | detachedNode (i : Nat)
  | subscription (i : Nat)
  | subscriptionName (i : Nat)
deriving DecidableEq

/-- The fields of a `network_server_t` that its functions test: whether there is an `_api_key`,
`_running`, and whether `_server_fd` is not -1. `lost` is the number of accept threads that nobody
can join any more, because `_accept_thread` was written again or `_running` was taken back. The
code does not have it. -/
structure Server where
  apiKey : Bool
  running : Bool
  serverFd : Bool
  lost : Nat
deriving DecidableEq

/-- `_create_ssl_context`. The three calls load the certificate and the key and check them. -/
def createSslContext : Script ServerBlock Int := do
  let ctx ← acquire .sslCtx
  if ctx ≠ 0 then pure (-1)
  else do
    let certificate ← call
    if certificate ≠ 0 then do
      release .sslCtx
      pure (-1)
    else do
      let privateKey ← call
      if privateKey ≠ 0 then do
        release .sslCtx
        pure (-1)
      else do
        let check ← call
        if check ≠ 0 then do
          release .sslCtx
          pure (-1)
        else pure 0

/-- The copy of the configured key in `network_server_new`. Without a key there is nothing to
allocate. -/
def copyApiKey (apiKey : Bool) : Script ServerBlock Int :=
  if apiKey then acquire .apiKey else pure 0

/-- `free(self->_api_key)`. -/
def freeApiKey (apiKey : Bool) : Script ServerBlock Unit :=
  if apiKey then release .apiKey else pure ()

/-- `network_server_new`. `_api_key` is not freed when there is no TLS context, no socket or no
address, and `_detached_mutex` is not destroyed when there is no socket or no address. -/
def networkServerNew (apiKey : Bool) : Script ServerBlock Int := do
  let self ← acquire .self
  if self ≠ 0 then pure (-1)
  else do
    let key ← copyApiKey apiKey
    if key ≠ 0 then do
      release .self
      pure (-1)
    else do
      let code ← acquire .detachedMutex
      if code ≠ 0 then do
        freeApiKey apiKey
        release .self
        pure (-1)
      else do
        let ctx ← createSslContext
        if ctx ≠ 0 then do
          releaseAll [.detachedMutex, .self]
          pure (-1)
        else do
          let fd ← acquire .serverFd
          if fd ≠ 0 then do
            releaseAll [.sslCtx, .self]
            pure (-1)
          else do
            let bind ← call
            if bind ≠ 0 then do
              releaseAll [.serverFd, .sslCtx, .self]
              pure (-1)
            else pure 0

/-- `network_server_start`. A listen on the descriptor -1 fails. -/
def networkServerStart (server : Server) : Script ServerBlock Server :=
  if server.serverFd = false then pure server
  else do
    use .serverFd
    let listen ← call
    if listen ≠ 0 then pure server
    else do
      let lost := if server.running then server.lost + 1 else server.lost
      let code ← acquire .acceptThread
      if code ≠ 0 then pure { server with running := false, lost := lost }
      else pure { server with running := true, lost := lost }

/-- `network_server_stop`. -/
def networkServerStop (server : Server) : Script ServerBlock Server :=
  if server.running = false then pure server
  else do
    use .serverFd
    release .serverFd
    release .acceptThread
    pure { server with running := false, serverFd := false }

/-- `close(self->_server_fd)`, when it is not -1. -/
def closeServerFd (serverFd : Bool) : Script ServerBlock Unit :=
  if serverFd then release .serverFd else pure ()

/-- The loop of `network_server_free` from the node `i` on. `subscription_unsubscribe` and the rest
of `subscription_free` are calls of the broker. -/
def freeDetached (i : Nat) : Nat → Script ServerBlock Unit
  | 0 => pure ()
  | rest + 1 => do
      releaseAll [.subscriptionName i, .subscription i, .detachedNode i]
      freeDetached (i + 1) rest

/-- `network_server_free` with `detached` detached subscriptions. -/
def networkServerFree (server : Server) (detached : Nat) : Script ServerBlock Int := do
  let server ← networkServerStop server
  freeDetached 0 detached
  release .detachedMutex
  closeServerFd server.serverFd
  release .sslCtx
  freeApiKey server.apiKey
  release .self
  pure 0

/-- A call on a server that has been made. -/
inductive ServerCall where
  | start
  | stop
deriving DecidableEq, Repr

/-- The calls on a server one after the other. -/
def serverCalls : List ServerCall → Server → Script ServerBlock Server
  | [], server => pure server
  | .start :: rest, server => do
      let server ← networkServerStart server
      serverCalls rest server
  | .stop :: rest, server => do
      let server ← networkServerStop server
      serverCalls rest server

end Miez.Construction
