import Miez.Proofs.Construction

/-!
# `Miez.Proofs.MessageBroker.Construction`: how the broker is made and destroyed

`message_broker_new` leaves nothing behind when it fails, apart from what `generic_hash_table_new`
leaves. `message_broker_free` releases all that the broker holds, whatever is in its table, in the
lists of its channels and in the inboxes of their proxies. It leaves the arguments of the tasks that
no dispatcher has taken, and the contents of a bucket for which it could not allocate an iterator.
-/

set_option autoImplicit false

namespace Miez.Proofs.Construction

open Miez.Lib
open Miez.Lib.Script
open Miez.Construction

/-! ### Messages, proxies and channels -/

/-- The blocks of a message, and those of the argument of a task. -/
def messageBlocks : Multiset MessageBlock :=
  {MessageBlock.self} + {MessageBlock.channelName} + {MessageBlock.content}

/-- The blocks of a proxy with `messages` messages in its inbox. -/
def proxyBlocks (messages : Nat) : Multiset ProxyBlock :=
  {ProxyBlock.self} + (queueSynBlocks messages).map .inbox + {ProxyBlock.inboxMutex} +
    {ProxyBlock.inboxCond} + numbered (fun i => messageBlocks.map (.message i)) 0 messages

/-- The blocks of a channel with `size` proxies in its list, without the proxies. -/
def channelBlocks (size : Nat) : Multiset ChannelBlock :=
  {ChannelBlock.self} + {ChannelBlock.channelName} + (listBlocks size).map .subscriberProxies +
    {ChannelBlock.mutex}

/-- `_message_new` is all or nothing. -/
theorem messageNew_allOrNothing : AllOrNothing messageNew messageBlocks := by
  unfold messageNew
  refine Safe.acquire_if ?_ fun self hself => Safe.pure (Or.inr ⟨by decide, rfl⟩)
  refine Safe.acquire_if ?_ fun channelName hname =>
    Safe.undo (clears_release _) (add_zero _) (by decide)
  refine Safe.acquire_if ?_ fun content hcontent =>
    Safe.undo (clears_releaseAll _) (by simp [coe_cons]) (by decide)
  refine Safe.pure (Or.inl ⟨rfl, ?_⟩)
  unfold messageBlocks
  abel

/-- `_subscriber_proxy_new` is all or nothing. -/
theorem subscriberProxyNew_allOrNothing : AllOrNothing subscriberProxyNew (proxyBlocks 0) := by
  have hinbox := genericQueueSynFree_empty ProxyBlock.inbox
  unfold subscriberProxyNew
  refine Safe.acquire_if ?_ fun self hself => Safe.pure (Or.inr ⟨by decide, rfl⟩)
  refine Safe.construct_if genericQueueSynNew_allOrNothing (fun _ _ h => ProxyBlock.inbox.inj h)
    ?_ fun code hcode => Safe.undo (clears_release _) (add_zero _) hcode
  refine Safe.acquire_if ?_ fun code hcode => ?_
  · refine Safe.acquire_if ?_ fun code hcode => ?_
    · refine Safe.pure (Or.inl ⟨rfl, ?_⟩)
      unfold proxyBlocks
      rw [numbered_zero]
      abel
    · refine Safe.release rfl ?_
      exact Safe.clear hinbox rfl fun _ => Safe.undo (clears_release _) (add_zero _) hcode
  · exact Safe.clear hinbox rfl fun _ => Safe.undo (clears_release _) (add_zero _) hcode

/-- `_channel_new` is all or nothing. -/
theorem channelNew_allOrNothing : AllOrNothing channelNew (channelBlocks 0) := by
  have hlist := genericLinkedListFree_nodes ChannelBlock.subscriberProxies ([] : List Unit)
  have hlast : ({ChannelBlock.channelName} + ({ChannelBlock.self} + 0) : Multiset ChannelBlock) =
      (([.channelName, .self] : List ChannelBlock) : Multiset ChannelBlock) := by
    simp [coe_cons]
  unfold channelNew
  refine Safe.acquire_if ?_ fun self hself => Safe.pure (Or.inr ⟨by decide, rfl⟩)
  refine Safe.acquire_if ?_ fun channelName hname =>
    Safe.undo (clears_release _) (add_zero _) (by decide)
  refine Safe.construct_if genericLinkedListNew_allOrNothing
    (fun _ _ h => ChannelBlock.subscriberProxies.inj h) ?_ fun code hcode =>
      Safe.undo (clears_releaseAll _) hlast hcode
  refine Safe.acquire_if ?_ fun code hcode => ?_
  · refine Safe.pure (Or.inl ⟨rfl, ?_⟩)
    unfold channelBlocks
    abel
  · exact Safe.clear hlist rfl fun _ => Safe.undo (clears_releaseAll _) hlast hcode

section
variable {ρ : Type} [DecidableEq ρ]

/-- `message_free` releases a message. -/
theorem messageFree_clears (block : MessageBlock → ρ) :
    Clears (messageFree block) (messageBlocks.map block) := by
  unfold messageFree
  refine (clears_releaseAll _).congr ?_
  simp only [messageBlocks, Multiset.map_add, Multiset.map_singleton, coe_cons, Multiset.coe_nil]
  abel

/-- `_subscriber_proxy_free` releases a proxy with the messages in its inbox. -/
theorem subscriberProxyFree_clears (block : ProxyBlock → ρ) (messages : Nat) :
    Clears (subscriberProxyFree block messages) ((proxyBlocks messages).map block) := by
  have hinbox := genericQueueSynFree_clears (fun b => block (.inbox b)) (List.range messages)
    fun i _ => messageFree_clears fun b => block (.message i b)
  have hall := hinbox.seq (clears_releaseAll [block .inboxMutex, block .inboxCond, block .self])
  rw [sum_map_range, List.length_range] at hall
  have hblocks : (proxyBlocks messages).map block =
      numbered (fun i => messageBlocks.map fun b => block (.message i b)) 0 messages +
        (queueSynBlocks messages).map (fun b => block (.inbox b)) +
          (([block .inboxMutex, block .inboxCond, block .self] : List ρ) : Multiset ρ) := by
    simp only [proxyBlocks, Multiset.map_add, Multiset.map_singleton, Multiset.map_map,
      map_numbered, Function.comp_def, coe_cons, Multiset.coe_nil]
    abel
  unfold subscriberProxyFree
  rw [hblocks]
  refine Clears.access (by simp) (Clears.access (by simp) (Clears.access (by simp) hall))

/-- `_channel_free` releases a channel and what the free function of its list releases. -/
theorem channelFree_clears {α : Type} {freeFunction : α → Script ρ Unit} {owns : α → Multiset ρ}
    (block : ChannelBlock → ρ) (proxies : List α)
    (hfree : ∀ a ∈ proxies, Clears (freeFunction a) (owns a)) :
    Clears (channelFree freeFunction block proxies)
      ((channelBlocks proxies.length).map block + (proxies.map owns).sum) := by
  have hlist := genericLinkedListFree_clears (fun b => block (.subscriberProxies b)) proxies hfree
  have hblocks : (channelBlocks proxies.length).map block + (proxies.map owns).sum =
      ((proxies.map owns).sum +
        (listBlocks proxies.length).map fun b => block (.subscriberProxies b)) +
          ({block .channelName} +
            (([block .mutex, block .self] : List ρ) : Multiset ρ)) := by
    simp only [channelBlocks, Multiset.map_add, Multiset.map_singleton, Multiset.map_map,
      Function.comp_def, coe_cons, Multiset.coe_nil]
    abel
  unfold channelFree
  rw [hblocks]
  have hend : Clears (Script.use (block .mutex) >>= fun _ =>
      releaseAll [block .mutex, block .self])
      (([block .mutex, block .self] : List ρ) : Multiset ρ) :=
    Clears.access (by simp) (clears_releaseAll _)
  exact Clears.access (by simp) (hlist.seq ((clears_release _).seq hend))

end

/-! ### The broker -/

/-- The blocks of the proxies of a list. -/
def proxiesBlocks (proxies : List (Nat × Nat)) : Multiset BrokerBlock :=
  (proxies.map fun proxy => (proxyBlocks proxy.2).map (.proxy proxy.1)).sum

/-- What the table owns for one name: the key, the channel, its proxies and their messages. -/
def contentsBlocks (contents : ChannelContents) : Multiset BrokerBlock :=
  {BrokerBlock.key contents.channel} +
    ((channelBlocks contents.proxies.length).map (.channel contents.channel) +
      proxiesBlocks contents.proxies)

/-- The blocks of the arguments of `tasks` tasks. -/
def argBlocks (tasks : Nat) : Multiset BrokerBlock :=
  numbered (fun i => messageBlocks.map (.arg i)) 0 tasks

/-- The blocks of a broker with `tasks` tasks in the queue of its pool and the channels `pairs i` in
the bucket `i` of its table, without the arguments of the tasks. -/
def brokerBlocks (nThreads tasks capacity : Nat) (pairs : Nat → List ChannelContents) :
    Multiset BrokerBlock :=
  {BrokerBlock.self} + (poolBlocks nThreads tasks).map .publisherPool +
    (tableBlocks capacity fun i => (pairs i).length).map .channels +
    numbered (pairBlocks contentsBlocks .channels pairs) 0 capacity + {BrokerBlock.channelsMutex}

/-- A pair of the table is freed with all that it owns. -/
theorem freeChannelPair_clears (contents : ChannelContents) :
    Clears (freeChannelPair contents) (contentsBlocks contents) := by
  have hchannel := channelFree_clears (BrokerBlock.channel contents.channel) contents.proxies
    fun proxy _ => subscriberProxyFree_clears (BrokerBlock.proxy proxy.1) proxy.2
  unfold freeChannelPair
  exact (clears_release _).seq hchannel

/-- `message_broker_free` releases the broker with any contents, apart from the contents of the
buckets whose iterator could not be allocated. -/
theorem messageBrokerFree_safe (nThreads tasks capacity : Nat)
    (pairs : Nat → List ChannelContents) :
    Safe (messageBrokerFree nThreads tasks capacity pairs)
      (brokerBlocks nThreads tasks capacity pairs)
      fun code held => code = 0 ∧ ∃ failed : Nat → Bool,
        held = leftPairs contentsBlocks .channels pairs failed 0 capacity := by
  have hpool := (threadPoolFree_clears nThreads tasks).relabel
    (f := BrokerBlock.publisherPool) fun _ _ h => BrokerBlock.publisherPool.inj h
  have htable := genericHashTableFree_safe BrokerBlock.channels capacity pairs
    (fun _ pair _ => freeChannelPair_clears pair) ({BrokerBlock.self} + {BrokerBlock.channelsMutex})
  unfold messageBrokerFree
  refine Safe.clear hpool (k := (tableBlocks capacity fun i => (pairs i).length).map .channels +
    numbered (pairBlocks contentsBlocks .channels pairs) 0 capacity +
      ({BrokerBlock.self} + {BrokerBlock.channelsMutex})) ?_ fun _ => ?_
  · unfold brokerBlocks
    abel
  refine htable.bind ?_
  rintro code held ⟨failed, hheld, -⟩
  refine Safe.clear (clears_releaseAll _) (k :=
    leftPairs contentsBlocks .channels pairs failed 0 capacity) ?_ fun _ =>
      Safe.pure ⟨rfl, failed, rfl⟩
  rw [hheld]
  simp only [coe_cons, Multiset.coe_nil]
  abel

/-- `message_broker_free` on a broker with any contents never accesses or releases a block that the
broker does not hold. At its end the arguments of the tasks in the queue are left, and the contents
of the buckets whose iterator could not be allocated. It returns 0 in each case. -/
theorem messageBrokerFree_leaves (nThreads tasks capacity : Nat)
    (pairs : Nat → List ChannelContents) :
    Safe (messageBrokerFree nThreads tasks capacity pairs)
      (brokerBlocks nThreads tasks capacity pairs + argBlocks tasks)
      fun code held => code = 0 ∧ ∃ failed : Nat → Bool,
        held = argBlocks tasks + leftPairs contentsBlocks .channels pairs failed 0 capacity := by
  refine ((messageBrokerFree_safe nThreads tasks capacity pairs).frame (argBlocks tasks)).mono ?_
  rintro code held ⟨own, hheld, hcode, failed, rfl⟩
  exact ⟨hcode, failed, hheld.trans (add_comm _ _)⟩

/-- What `message_broker_new` leaves behind when it fails: nothing, or what
`generic_hash_table_new` has left. -/
def NewLeaves (held : Multiset BrokerBlock) : Prop :=
  held = 0 ∨ held = {BrokerBlock.channels .self} ∨
    held = {BrokerBlock.channels .self} + {BrokerBlock.channels .buckets}

/-- `message_broker_new` makes the whole broker, with its pool, its threads and its table, or it
fails. Then its threads are joined, and nothing is left but what `generic_hash_table_new` leaves
when one of its arrays cannot be allocated. -/
theorem messageBrokerNew_leaves (nThreads capacity : Nat) (hthreads : nThreads ≠ 0)
    (hcapacity : capacity ≠ 0) :
    Safe (messageBrokerNew nThreads capacity) 0 fun code held =>
      (code = 0 ∧ held = brokerBlocks nThreads 0 capacity fun _ => []) ∨
        (code ≠ 0 ∧ NewLeaves held) := by
  have hpool := (threadPoolFree_clears nThreads 0).relabel
    (f := BrokerBlock.publisherPool) fun _ _ h => BrokerBlock.publisherPool.inj h
  have hnopairs : ∀ failed : Nat → Bool, leftPairs (fun _ : Unit => (0 : Multiset BrokerBlock))
      BrokerBlock.channels (fun _ => []) failed 0 capacity = 0 := by
    intro failed
    refine numbered_eq_zero (fun j => ?_) 0 capacity
    simp [pairBlocks]
  rw [messageBrokerNew, if_neg hthreads, if_neg hcapacity]
  refine Safe.acquire_if ?_ fun self hself => Safe.pure (Or.inr ⟨by decide, Or.inl rfl⟩)
  refine Safe.construct_if (threadPoolNew_allOrNothing nThreads hthreads)
    (fun _ _ h => BrokerBlock.publisherPool.inj h) ?_ fun code hcode => ?_
  swap
  · refine Safe.clear (clears_release _) (k := 0) rfl fun _ => ?_
    exact Safe.pure (Or.inr ⟨hcode, Or.inl rfl⟩)
  have hnew := Safe.relabel (genericHashTableNew_safe capacity hcapacity)
    (f := BrokerBlock.channels) (fun _ _ h => BrokerBlock.channels.inj h)
    ((poolBlocks nThreads 0).map .publisherPool + ({BrokerBlock.self} + 0))
  rw [Multiset.map_zero, zero_add] at hnew
  refine hnew.bind ?_
  rintro code held ⟨own, hheld, hend⟩
  cases hend with
  | inl hdone =>
      obtain ⟨rfl, rfl⟩ := hdone
      rw [hheld]
      refine Safe.acquire_if ?_ fun code hcode => ?_
      · refine Safe.pure (Or.inl ⟨rfl, ?_⟩)
        have hnone : numbered (pairBlocks contentsBlocks BrokerBlock.channels fun _ => []) 0
            capacity = 0 := numbered_eq_zero (fun j => by simp [pairBlocks]) 0 capacity
        simp only [brokerBlocks, hnone, List.length_nil]
        abel
      · have htable := genericHashTableFree_safe BrokerBlock.channels capacity
          (fun _ => ([] : List Unit)) (fun _ => noFreeFunction_clears [])
          ((poolBlocks nThreads 0).map .publisherPool + ({BrokerBlock.self} + 0))
        have hnone : numbered (pairBlocks (fun _ : Unit => (0 : Multiset BrokerBlock))
            BrokerBlock.channels fun _ => []) 0 capacity = 0 :=
          numbered_eq_zero (fun j => by simp [pairBlocks]) 0 capacity
        rw [hnone, add_zero] at htable
        refine htable.bind ?_
        rintro first held' ⟨failed, hheld', -⟩
        rw [hheld', hnopairs, zero_add]
        refine Safe.clear hpool rfl fun _ => ?_
        refine Safe.clear (clears_release _) (k := 0) rfl fun _ => ?_
        exact Safe.pure (Or.inr ⟨hcode, Or.inl rfl⟩)
  | inr hfailed =>
      obtain ⟨hcode, hleft⟩ := hfailed
      rw [if_pos hcode, hheld]
      refine Safe.clear hpool (k := {BrokerBlock.self} + own.map .channels) ?_ fun _ => ?_
      · abel
      refine Safe.clear (clears_release _) rfl fun _ => Safe.pure (Or.inr ⟨hcode, ?_⟩)
      rcases hleft with rfl | rfl | rfl
      · exact Or.inl rfl
      · exact Or.inr (Or.inl rfl)
      · exact Or.inr (Or.inr rfl)

/-- Two threads and three buckets. -/
theorem messageBrokerNew_leaves_twoThreads :
    Safe (messageBrokerNew 2 3) 0 fun code held =>
      (code = 0 ∧ held = brokerBlocks 2 0 3 fun _ => []) ∨ (code ≠ 0 ∧ NewLeaves held) :=
  messageBrokerNew_leaves 2 3 (by decide) (by decide)

end Miez.Proofs.Construction
