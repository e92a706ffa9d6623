import Miez.Proofs.MessageBroker.Released
import Miez.Proofs.MessageBroker.OwnProxy

/-!
# `Miez.Proofs.MessageBroker.Safety`: an unsubscribe while others use the subscription

`lookups` are the proxies that the next step of a thread reads or writes, and `Safe` says that none
of them has been released. `subscription_unsubscribe` wakes the receives of its subscription and
releases the proxy without waiting for them, so `Safe` fails in some runs
(`unsubscribe_frees_waiting_receive`).

A call uses the proxy from its test of `self->_proxy` to its last access of the inbox. The proxy
is safe to release when no other call uses it, and a later call must not pass the test before the
pointer is NULL (`ReleasesUnused`). In the runs with this condition every state is `Safe`, and a
receive that the unsubscribe has woken up returns 1 without a message
(`concurrent_unsubscribe_safe`). The publishers need no condition: the mutex of the channel keeps
them away from the release.
-/

set_option autoImplicit false

namespace Miez.Proofs.MessageBroker

open Miez.Lib
open Miez.MessageBroker
open Miez.ThreadPool (Tid)

section
variable {n : Nat} {capacity : UInt64} {hcap : capacity ≠ 0}

/-! ### Lookups -/

/-- The proxies that the next step of a thread looks up. -/
def lookups (sh : Shared n) : Pc → List Nat
  | .publisherTask _ p =>
      match p with
      | .next ch i => (sh.channel ch).subscriberProxies[i]?.toList
      | .testActive _ _ x | .enqueue _ _ x | .lockInbox _ _ x | .signal _ _ x
      | .unlockInbox _ _ x => [x]
      | _ => []
  | .subscribe _ _ (.freeProxy x _) => [x]
  | .unsubscribe k _ u =>
      match u with
      | .deactivate | .lockInbox | .broadcast | .unlockInbox => (sh.subscription k).proxy.toList
      | .search ch => (sh.channel ch).subscriberProxies
      | .freeProxy _ _ x _ => [x]
      | _ => []
  | .receive k _ r =>
      match r with
      | .testProxyActive => (sh.subscription k).proxy.toList
      | r => (receiveProxy r).toList
  | .pendingCount k true => (sh.subscription k).proxy.toList
  | _ => []

/-- No thread is about to look up a released proxy. A thread that has followed a bad pointer takes
no further step. -/
def Safe (s : State n) : Prop :=
  ∀ t, s.faulted t = false → ∀ x ∈ lookups s.shared (s.pc t), (s.shared.proxy x).released = false

/-- The subscription that a call of one of its functions works on. -/
def subscriptionOf : Pc → Option Nat
  | .unsubscribe k _ _ | .free k | .receive k _ _ | .pendingCount k _ => some k
  | _ => none

/-- Why a step can be a fault: it looks up a released proxy, it uses a freed subscription or follows
its NULL pointer, or it uses a released channel object. -/
inductive FaultCause (sh : Shared n) (pc : Pc) : Prop where
  | lookup (x : Nat) (hx : x ∈ lookups sh pc) (hreleased : (sh.proxy x).released = true)
  | freed (k : Nat) (hk : subscriptionOf pc = some k) (hfreed : (sh.subscription k).released = true)
  | null (k : Nat) (hk : subscriptionOf pc = some k) (hnull : (sh.subscription k).proxy = none)
  | channel (ch : Nat) (hreleased : (sh.channel ch).released = true)

section
variable {t : Tid n} {sh : Shared n} {pc : Pc} {x k : Nat}

/-- An access to a proxy. -/
theorem faultCause_of_deref {r : Option (Outcome n)} (h : sh.deref x r = some .fault)
    (hx : x ∈ lookups sh pc) (hr : r ≠ some .fault) : FaultCause sh pc := by
  unfold Shared.deref at h
  split_ifs at h with hreleased
  · exact .lookup x hx hreleased
  · exact absurd h hr

/-- An access to a subscription. -/
theorem faultCause_of_derefSubscription {r : Option (Outcome n)}
    (h : sh.derefSubscription k r = some .fault) (hk : subscriptionOf pc = some k)
    (hr : r = some .fault → FaultCause sh pc) : FaultCause sh pc := by
  unfold Shared.derefSubscription at h
  split_ifs at h with hfreed
  · exact .freed k hk hfreed
  · exact hr h

/-- An access to the proxy of a subscription. -/
theorem faultCause_of_derefProxy {r : Nat → Option (Outcome n)}
    (h : sh.derefProxy k r = some .fault) (hk : subscriptionOf pc = some k)
    (hx : lookups sh pc = (sh.subscription k).proxy.toList) (hr : ∀ x, r x ≠ some .fault) :
    FaultCause sh pc := by
  refine faultCause_of_derefSubscription h hk fun h => ?_
  cases hproxy : (sh.subscription k).proxy with
  | none => exact .null k hk hproxy
  | some x =>
      rw [hproxy] at h
      exact faultCause_of_deref h (by rw [hx, hproxy]; exact List.mem_singleton_self x) (hr x)

/-- The get-or-create of a channel. -/
theorem getChannel_fault {name : CString} {freeFirst : Bool} {g : GetChannelPc} {move : Move n}
    {sh' : Shared n} (h : getChannel t name freeFirst sh g move = some (sh', .fault)) :
    FaultCause sh pc := by
  cases g with
  | freeUnlock ch | free ch =>
      cases move <;> simp only [getChannel] at h <;> try cases h
      split_ifs at h with hreleased
      · exact .channel ch hreleased
      · cases h
  | lock => cases move <;> simp [getChannel, Shared.lockChannels] at h
  | get => cases move <;> simp [getChannel] at h
  | insert ch => cases move <;> simp [getChannel] at h
  | _ => cases move <;> simp [getChannel] at h

/-- The release of a proxy. -/
theorem subscriberProxyFree_fault {f : ProxyFreePc} {sh' : Shared n}
    (h : subscriberProxyFree t x sh f = some (sh', .fault)) (hx : x ∈ lookups sh pc) :
    FaultCause sh pc := by
  unfold subscriberProxyFree at h
  split_ifs at h with hreleased
  · exact .lookup x hx hreleased
  · cases f <;> simp [Shared.lockInbox] at h

end

/-- The fault of a publisher task. -/
theorem publisherTask_fault {t : Tid n} {arg : PublisherTaskArg} {sh : Shared n}
    {p : PublisherTaskPc} {move : Move n} (h : publisherTask t arg sh p move = some .fault) :
    FaultCause sh (.publisherTask arg p) := by
  cases p with
  | getChannel g =>
      simp only [publisherTask, Option.map_eq_some_iff] at h
      obtain ⟨⟨sh₁, r⟩, hg, hr⟩ := h
      cases r <;> cases hr
      exact getChannel_fault hg
  | next ch i =>
      cases move <;> simp only [publisherTask] at h <;> try cases h
      cases hx : (sh.channel ch).subscriberProxies[i]? with
      | none => simp [hx] at h
      | some x =>
          rw [hx] at h
          exact faultCause_of_deref h (by simp [lookups, hx]) (by simp)
  | signal ch i x =>
      simp only [publisherTask] at h
      exact faultCause_of_deref h (List.mem_singleton_self x) (by simp)
  | lockChannel ch => cases move <;> simp [publisherTask, Shared.lockChannel] at h
  | begin ch => cases move <;> simp [publisherTask] at h
  | unlockChannel ch => cases move <;> simp [publisherTask] at h
  | testActive ch i x | enqueue ch i x | lockInbox ch i x | unlockInbox ch i x =>
      cases move <;> simp only [publisherTask] at h <;> try cases h
      exact faultCause_of_deref h (List.mem_singleton_self x) (by simp)

/-- The fault of a subscribe. -/
theorem messageBrokerSubscribe_fault {t : Tid n} {name : CString} {id : UInt64} {sh : Shared n}
    {p : SubscribePc} {move : Move n} (h : messageBrokerSubscribe t name id sh p move = some .fault) :
    FaultCause sh (.subscribe name id p) := by
  cases p with
  | getChannel g =>
      simp only [messageBrokerSubscribe, Option.map_eq_some_iff] at h
      obtain ⟨⟨sh₁, r⟩, hg, hr⟩ := h
      cases r <;> cases hr
      exact getChannel_fault hg
  | freeProxy x f =>
      obtain rfl : move = .go := by cases move <;> first | rfl | cases h
      simp only [messageBrokerSubscribe, Option.map_eq_some_iff] at h
      obtain ⟨⟨sh₁, r⟩, hf, hr⟩ := h
      cases r <;> cases hr
      exact subscriberProxyFree_fault hf (List.mem_singleton_self x)
  | lockChannel ch x => cases move <;> simp [messageBrokerSubscribe, Shared.lockChannel] at h
  | _ => cases move <;> simp [messageBrokerSubscribe] at h

/-- The fault of an unsubscribe. -/
theorem subscriptionUnsubscribe_fault {t : Tid n} {k : Nat} {thenFree : Bool} {sh : Shared n}
    {u : UnsubscribePc} {move : Move n}
    (h : subscriptionUnsubscribe t k thenFree sh u move = some .fault) :
    FaultCause sh (.unsubscribe k thenFree u) := by
  have hreturn : ∀ (sh : Shared n) code, unsubscribeReturn t k thenFree sh code ≠ .fault := by
    intro sh code
    unfold unsubscribeReturn
    cases thenFree <;> simp
  cases u with
  | deactivate | lockInbox | broadcast | unlockInbox =>
      cases move <;> simp only [subscriptionUnsubscribe] at h <;> try cases h
      exact faultCause_of_derefProxy h rfl rfl (by simp)
  | freeProxy ch i x f =>
      obtain rfl : move = .go := by cases move <;> first | rfl | cases h
      simp only [subscriptionUnsubscribe, Option.map_eq_some_iff] at h
      obtain ⟨⟨sh₁, r⟩, hf, hr⟩ := h
      cases r <;> cases hr
      exact subscriberProxyFree_fault hf (List.mem_singleton_self x)
  | testActive =>
      cases move <;> simp only [subscriptionUnsubscribe] at h <;> try cases h
      refine faultCause_of_derefSubscription h rfl fun h => ?_
      split_ifs at h
      · cases h
      · exact absurd (Option.some.inj h) (hreturn sh 1)
  | clearProxy =>
      cases move <;> simp only [subscriptionUnsubscribe] at h <;> try cases h
      exact faultCause_of_derefSubscription h rfl
        fun h => absurd (Option.some.inj h) (hreturn _ 0)
  | testProxy | clearActive =>
      cases move <;> simp only [subscriptionUnsubscribe] at h <;> try cases h
      exact faultCause_of_derefSubscription h rfl fun h => by cases h
  | get =>
      cases move <;> simp only [subscriptionUnsubscribe] at h <;> try cases h
      all_goals
        refine faultCause_of_derefSubscription h rfl fun h => ?_
        split_ifs at h
        cases h
  | search ch =>
      cases move <;> simp only [subscriptionUnsubscribe] at h <;> try cases h
      refine faultCause_of_derefSubscription h rfl fun h => ?_
      split at h <;> cases h
  | lockChannels => cases move <;> simp [subscriptionUnsubscribe, Shared.lockChannels] at h
  | lockChannel ch => cases move <;> simp [subscriptionUnsubscribe, Shared.lockChannel] at h
  | _ => cases move <;> simp [subscriptionUnsubscribe] at h

/-- The fault of a receive. -/
theorem subscriptionReceive_fault {t : Tid n} {k : Nat} {tryReceive : Bool} {sh : Shared n}
    {r : ReceivePc} {move : Move n}
    (h : subscriptionReceive t k tryReceive sh r move = some .fault) :
    FaultCause sh (.receive k tryReceive r) := by
  obtain rfl : move = .go := by cases r <;> cases move <;> first | rfl | cases h
  cases r with
  | testActive | testProxy =>
      simp only [subscriptionReceive] at h
      refine faultCause_of_derefSubscription h rfl fun h => ?_
      split_ifs at h <;> cases h
  | testProxyActive =>
      simp only [subscriptionReceive] at h
      refine faultCause_of_derefProxy h rfl rfl fun x hx => ?_
      split_ifs at hx <;> cases hx
  | load =>
      simp only [subscriptionReceive] at h
      refine faultCause_of_derefSubscription h rfl fun h => ?_
      cases hproxy : (sh.subscription k).proxy with
      | none => exact .null k rfl hproxy
      | some x => simp [hproxy] at h
  | parked x =>
      simp only [subscriptionReceive] at h
      refine faultCause_of_deref h (by simp [lookups, receiveProxy]) ?_
      split_ifs <;> simp
  | tryEmpty x =>
      simp only [subscriptionReceive] at h
      refine faultCause_of_deref h (by simp [lookups, receiveProxy]) ?_
      split_ifs <;> simp
  | _ =>
      simp only [subscriptionReceive] at h
      exact faultCause_of_deref h (by simp [lookups, receiveProxy]) (by simp)

/-- A step is a fault for one of the causes of `FaultCause`. -/
theorem threadFunction_fault {t : Tid n} {sh : Shared n} {pc : Pc} {move : Move n}
    (h : threadFunction t sh pc move = some .fault) : FaultCause sh pc := by
  cases pc with
  | publisherTask arg p => exact publisherTask_fault h
  | subscribe name id p => exact messageBrokerSubscribe_fault h
  | unsubscribe k thenFree u => exact subscriptionUnsubscribe_fault h
  | receive k tryReceive r => exact subscriptionReceive_fault h
  | free k =>
      cases move <;> simp only [threadFunction] at h <;> try cases h
      exact faultCause_of_derefSubscription h rfl fun h => by cases h
  | pendingCount k b =>
      cases move <;> simp only [threadFunction] at h <;> try cases h
      cases b with
      | false =>
          simp only [subscriptionGetPendingCount] at h
          refine faultCause_of_derefSubscription h rfl fun h => ?_
          split_ifs at h <;> cases h
      | true => exact faultCause_of_derefProxy h rfl rfl (by simp)
  | idle =>
      cases t with
      | dispatcher d => cases h
      | client c =>
          cases move <;> simp only [threadFunction, call] at h <;> try cases h
          all_goals split_ifs at h <;> cases h
  | publish arg => cases move <;> simp [threadFunction] at h
  | inPool => cases h

/-! ### Calls that use a proxy -/

/-- The subscription whose pointer the next step of a call compares with NULL. -/
def testedPointer : Pc → Option Nat
  | .receive k _ .testProxy | .pendingCount k false | .unsubscribe k _ .testProxy => some k
  | _ => none

/-- The subscription whose pointer a call follows after the test. -/
def usedPointer : Pc → Option Nat
  | .receive k _ .testProxyActive | .receive k _ .load | .pendingCount k true => some k
  | .unsubscribe k _ u =>
      match u with
      | .deactivate | .lockInbox | .broadcast | .unlockInbox => some k
      | _ => none
  | _ => none

/-- The proxy that a call uses, between its test of `self->_proxy` and its last access of the
inbox. -/
def usedProxy (sh : Shared n) (pc : Pc) : Option Nat :=
  match usedPointer pc with
  | some k => (sh.subscription k).proxy
  | none => (loadedProxy pc).map Prod.snd

/-- The proxy that the next step of an unsubscribe releases. -/
def releasedNext : Pc → Option Nat
  | .unsubscribe _ _ (.freeProxy _ _ x .release) => some x
  | _ => none

/-- An unsubscribe releases a proxy only when no other call uses it, and a call passes its test of
`self->_proxy` only when the proxy has not been released. -/
def ReleasesUnused (s : State n) : Action n → Prop
  | .thread t _ =>
      (∀ x, releasedNext (s.pc t) = some x →
        ∀ t', t' ≠ t → s.faulted t' = false → usedProxy s.shared (s.pc t') ≠ some x) ∧
      ∀ k x, testedPointer (s.pc t) = some k → (s.shared.subscription k).proxy = some x →
        (s.shared.proxy x).released = false
  | _ => True

/-- How a call comes to use a proxy: it used it before, it has just passed the test of the pointer,
or it has loaded the pointer that it used. -/
structure UseStep (sh : Shared n) (pc : Pc) (sh' : Shared n) (pc' : Pc) : Prop where
  used : ∀ k, usedPointer pc' = some k → usedPointer pc = some k ∨
    (testedPointer pc = some k ∧ (sh.subscription k).proxy ≠ none ∧ sh' = sh)
  loaded : ∀ k x, loadedProxy pc' = some (k, x) → loadedProxy pc = some (k, x) ∨
    (usedPointer pc = some k ∧ (sh.subscription k).proxy = some x)

section
variable {t : Tid n} {sh sh' : Shared n} {pc pc' : Pc} {e : Option (Event n)}

/-- A step after which the call uses nothing, or what it used before. -/
theorem useStep_of_same (hused : usedPointer pc' = none ∨ usedPointer pc' = usedPointer pc)
    (hloaded : loadedProxy pc' = none ∨ loadedProxy pc' = loadedProxy pc) :
    UseStep sh pc sh' pc' := by
  constructor
  · intro k hk
    rcases hused with h | h
    · rw [h] at hk
      cases hk
    · exact Or.inl (h ▸ hk)
  · intro k x hx
    rcases hloaded with h | h
    · rw [h] at hx
      cases hx
    · exact Or.inl (h ▸ hx)

/-- A step that passes the test of the pointer. -/
theorem useStep_of_test {k : Nat} (htest : testedPointer pc = some k)
    (hnull : (sh.subscription k).proxy ≠ none) (hused : usedPointer pc' = some k)
    (hloaded : loadedProxy pc' = none) : UseStep sh pc sh pc' := by
  constructor
  · intro k' hk
    obtain rfl : k = k' := Option.some.inj (hused.symm.trans hk)
    exact Or.inr ⟨htest, hnull, rfl⟩
  · intro k' x hx
    rw [hloaded] at hx
    cases hx

/-- A step of a receive. -/
theorem subscriptionReceive_useStep {k : Nat} {tryReceive : Bool} {r : ReceivePc} {move : Move n}
    (h : subscriptionReceive t k tryReceive sh r move = some (.step sh' pc' e)) :
    UseStep sh (.receive k tryReceive r) sh' pc' := by
  obtain ⟨rfl, hstep⟩ := subscriptionReceive_receiveStep h
  cases hstep with
  | test r r' hr =>
      rcases hr with ⟨rfl, rfl⟩ | ⟨rfl, rfl⟩ | ⟨rfl, rfl⟩
      · exact useStep_of_same (Or.inl rfl) (Or.inl rfl)
      · refine useStep_of_test rfl ?_ rfl rfl
        intro hnull
        simp [subscriptionReceive, hnull] at h
      · exact useStep_of_same (Or.inr rfl) (Or.inl rfl)
  | load x hx =>
      constructor
      · intro k' hk
        cases tryReceive <;> cases hk
      · intro k' y hy
        obtain ⟨rfl, rfl⟩ : k = k' ∧ x = y := by
          cases tryReceive <;> simpa [loadedProxy, receiveProxy] using hy
        exact Or.inr ⟨rfl, hx⟩
  | lock r x hr hfree =>
      refine useStep_of_same (Or.inl rfl) (Or.inr ?_)
      rcases hr with rfl | rfl <;> rfl
  | failed r hr => exact useStep_of_same (Or.inl rfl) (Or.inl rfl)
  | unlockInactive x => exact useStep_of_same (Or.inl rfl) (Or.inl rfl)
  | got x => exact useStep_of_same (Or.inl rfl) (Or.inl rfl)
  | _ => exact useStep_of_same (Or.inl rfl) (Or.inr rfl)

/-- A step of a thread inside a broker function. -/
theorem threadFunction_useStep {move : Move n}
    (h : threadFunction t sh pc move = some (.step sh' pc' e)) : UseStep sh pc sh' pc' := by
  cases hrec : inReceive pc with
  | true =>
      cases pc with
      | receive k tryReceive r => exact subscriptionReceive_useStep h
      | _ => cases hrec
  | false =>
      rcases threadFunction_cases h with hstep | ⟨hstep, -⟩
      · cases hstep with
        | receiveRead hret => cases hrec
        | receiveInbox x p hp hinbox hret => cases hrec
        | got x => cases hrec
        | unsubscribeTest u u' hu =>
            rcases hu with ⟨rfl, rfl⟩ | ⟨rfl, rfl | rfl⟩
            · exact useStep_of_same (Or.inl rfl) (Or.inl rfl)
            · exact useStep_of_same (Or.inl rfl) (Or.inl rfl)
            · refine useStep_of_test rfl ?_ rfl rfl
              intro hnull
              obtain rfl : move = .go := by cases move <;> first | rfl | cases h
              simp [threadFunction, subscriptionUnsubscribe, hnull] at h
        | unsubscribeInactive hret | clearProxy hret =>
            rcases hret with ⟨rfl, -⟩ | ⟨rfl, -⟩ <;>
              exact useStep_of_same (Or.inl rfl) (Or.inl rfl)
        | deactivate x hx => exact useStep_of_same (Or.inr rfl) (Or.inl rfl)
        | unsubscribeInbox x p u u' hp hinbox hu =>
            rcases hu with ⟨rfl, rfl⟩ | ⟨rfl, rfl⟩ | ⟨rfl, rfl⟩
            · exact useStep_of_same (Or.inr rfl) (Or.inl rfl)
            · exact useStep_of_same (Or.inr rfl) (Or.inl rfl)
            · exact useStep_of_same (Or.inl rfl) (Or.inl rfl)
        | @pendingRead k b pc' e hret =>
            rcases hret with ⟨rfl, -⟩ | ⟨rfl, -⟩
            · cases b with
              | true => exact useStep_of_same (Or.inr rfl) (Or.inl rfl)
              | false =>
                  refine useStep_of_test rfl ?_ rfl rfl
                  intro hnull
                  obtain rfl : move = .go := by cases move <;> first | rfl | cases h
                  simp [threadFunction, subscriptionGetPendingCount, hnull] at h
            · exact useStep_of_same (Or.inl rfl) (Or.inl rfl)
        | _ => exact useStep_of_same (Or.inl rfl) (Or.inl rfl)
      · cases hstep <;> exact useStep_of_same (Or.inl rfl) (Or.inl rfl)

end

/-! ### Runs that release unused proxies -/

/-- A call uses the proxy of its pointer, or the one that it has loaded. -/
theorem usedProxy_eq_some {sh : Shared n} {pc : Pc} {x : Nat} :
    usedProxy sh pc = some x ↔
      (∃ k, usedPointer pc = some k ∧ (sh.subscription k).proxy = some x) ∨
      ∃ k, loadedProxy pc = some (k, x) := by
  have hload : ∀ k x, loadedProxy pc = some (k, x) → usedPointer pc = none := by
    intro k x hx
    cases pc with
    | receive k' tryReceive r => cases r <;> first | rfl | cases hx
    | _ => cases hx
  unfold usedProxy
  cases hused : usedPointer pc with
  | none => simp
  | some k =>
      constructor
      · exact fun hx => Or.inl ⟨k, rfl, hx⟩
      · rintro (⟨k', hk, hx⟩ | ⟨k', hx⟩)
        · obtain rfl := Option.some.inj hk
          exact hx
        · rw [hload k' x hx] at hused
          cases hused

/-- A proxy that a call uses belongs to a subscription. -/
theorem PointerInv.owned_of_used {tr : List (Event n)} {s : State n} (h : PointerInv tr s)
    {t : Tid n} {x : Nat} (hx : usedProxy s.shared (s.pc t) = some x) : ∃ k, Owned tr k x := by
  rcases usedProxy_eq_some.mp hx with ⟨k, -, hpointer⟩ | ⟨k, hload⟩
  · exact ⟨k, h.pointer hpointer⟩
  · exact ⟨k, h.loaded t k x hload⟩

/-- The calls follow pointers of known subscriptions, and the proxies that they use are alive. -/
structure UseInv (s : State n) : Prop where
  known : ∀ t k, usedPointer (s.pc t) = some k → k < s.shared.nextSubscription
  live : ∀ t x, s.faulted t = false → usedProxy s.shared (s.pc t) = some x →
    (s.shared.proxy x).released = false

/-- A step that meets the condition releases no proxy that a call uses. -/
theorem UseInv.keep {tr : List (Event n)} {s : State n} (hinv : UseInv s)
    (hpointer : PointerInv tr s) {t : Tid n} {move : Move n}
    (hK : ReleasesUnused s (.thread t move)) {sh : Shared n} {pc : Pc}
    (hrelease : ReleaseStep s.shared (s.pc t) sh pc) {t' : Tid n} (hlive : s.faulted t' = false)
    {x : Nat} (hx : usedProxy s.shared (s.pc t') = some x) : (sh.proxy x).released = false := by
  rw [← Bool.not_eq_true]
  intro hreleased
  rcases hrelease.released x hreleased with hold | hnew
  · rw [hinv.live t' x hlive hx] at hold
    cases hold
  · generalize hpc : s.pc t = pc₀ at hnew
    cases hnew with
    | unsubscribe k thenFree ch i =>
        have ht : t' ≠ t := by
          rintro rfl
          rw [hpc] at hx
          cases hx
        exact hK.1 x (by rw [hpc]; rfl) t' ht hlive hx
    | subscribe name id =>
        -- a proxy in the hand of a subscribe has not been handed out
        obtain ⟨k, howned⟩ := hpointer.owned_of_used hx
        exact (hpointer.hand t x (by rw [hpc]; rfl)).2 k howned

/-- A step of a thread that meets the condition keeps `UseInv`. -/
theorem useInv_thread {tr : List (Event n)} {s : State n} (hinv : UseInv s)
    (hpointer : PointerInv tr s) {t : Tid n} {move : Move n}
    (hK : ReleasesUnused s (.thread t move)) {sh : Shared n} {pc : Pc} {e : Option (Event n)}
    (hf : threadFunction t s.shared (s.pc t) move = some (.step sh pc e)) :
    UseInv ⟨s.pool, sh, Function.update s.pc t pc, s.faulted⟩ := by
  have huse := threadFunction_useStep hf
  have hchange := threadFunction_pointerChange hf
  have hkeep : ∀ {t' x}, s.faulted t' = false → usedProxy s.shared (s.pc t') = some x →
      (sh.proxy x).released = false := by
    intro t' x hlive hx
    exact hinv.keep hpointer hK (threadFunction_releaseStep hf) hlive hx
  constructor
  · refine forall_update (P := fun _ pc => ∀ k, usedPointer pc = some k →
      k < sh.nextSubscription) ?_
      fun t' _ k hk => (hinv.known t' k hk).trans_le hchange.nextSubscription_le
    intro k hk
    refine Nat.lt_of_lt_of_le ?_ hchange.nextSubscription_le
    rcases huse.used k hk with hold | ⟨-, hnull, -⟩
    · exact hinv.known t k hold
    · by_contra hge
      exact hnull (hpointer.known k (not_lt.mp hge))
  · refine forall_update (P := fun t' pc => ∀ x, s.faulted t' = false → usedProxy sh pc = some x →
      (sh.proxy x).released = false) ?_ ?_
    · intro x hlive hx
      rcases usedProxy_eq_some.mp hx with ⟨k, hk, hx⟩ | ⟨k, hload⟩
      · rcases huse.used k hk with hold | ⟨htest, -, rfl⟩
        · have hpointer' := hchange.pointer (hinv.known t k hold) hx
          exact hkeep hlive (usedProxy_eq_some.mpr (Or.inl ⟨k, hold, hpointer'⟩))
        · exact hK.2 k x htest hx
      · refine hkeep hlive (usedProxy_eq_some.mpr ?_)
        rcases huse.loaded k x hload with hold | ⟨hold, hx⟩
        · exact Or.inr ⟨k, hold⟩
        · exact Or.inl ⟨k, hold, hx⟩
    · intro t' _ x hlive hx
      refine hkeep hlive (usedProxy_eq_some.mpr ?_)
      rcases usedProxy_eq_some.mp hx with ⟨k, hk, hx⟩ | hload
      · exact Or.inl ⟨k, hk, hchange.pointer (hinv.known t' k hk) hx⟩
      · exact Or.inr hload

/-- `UseInv` holds in every state of a run that meets the condition. -/
theorem useInv_of_run {tr : List (Event n)} {s : State n}
    (h : (machine n capacity hcap).RunIf ReleasesUnused tr s) : UseInv s := by
  refine h.induction (I := fun _ s => UseInv s) ?_ ?_
  · exact ⟨fun t k hk => (by cases hk), fun t x _ hx => (by cases hx)⟩
  · intro tr s a s' e hrun hinv hK hnext
    rcases next_cases hnext with ⟨b, pool, t, pc, e', -, -, rfl, -, hnew, rfl⟩ |
        ⟨t, move, sh, pc, rfl, hf, rfl⟩ | ⟨t, rfl, rfl⟩
    · have hnone : usedPointer pc = none ∧ usedProxy s.shared pc = none := by
        rcases inCall_cases hnew with rfl | ⟨arg, rfl⟩ | rfl | ⟨arg, rfl⟩ <;> exact ⟨rfl, rfl⟩
      constructor
      · refine forall_update (P := fun _ pc => ∀ k, usedPointer pc = some k →
          k < s.shared.nextSubscription) ?_ fun t' _ => hinv.known t'
        intro k hk
        rw [hnone.1] at hk
        cases hk
      · refine forall_update (P := fun t' pc => ∀ x, s.faulted t' = false →
          usedProxy s.shared pc = some x → (s.shared.proxy x).released = false) ?_
          fun t' _ => hinv.live t'
        intro x _ hx
        rw [hnone.2] at hx
        cases hx
    · exact useInv_thread hinv (pointerInv_of_run hrun) hK hf
    · refine ⟨hinv.known, fun t' x hlive hx => hinv.live t' x ?_ hx⟩
      have hlive : Function.update s.faulted t true t' = false := hlive
      by_cases ht : t' = t
      · rw [ht, Function.update_self] at hlive
        cases hlive
      · rwa [Function.update_of_ne ht] at hlive

/-- A thread looks up proxies that its call uses, proxies in a list whose mutex it holds, or a
proxy that has never been in a list. -/
theorem safe_of_inv {s : State n} (huse : UseInv s) (hreleased : ReleasedInv s)
    (hchannel : ChannelInv s) : Safe s := by
  -- a thread that holds a channel finds no released proxy there, unless it released it itself
  have hlisted : ∀ t ch x, channelHeld (s.pc t) = some ch → unlinking (s.pc t) = none →
      x ∈ (s.shared.channel ch).subscriberProxies → (s.shared.proxy x).released = false := by
    intro t ch x hheld hun hmem
    rw [← Bool.not_eq_true]
    intro hrel
    obtain ⟨t', i, hun', -⟩ := hreleased.listed ch x hmem hrel
    obtain rfl := (hchannel.lock ch).unique (channelHeld_of_unlinking hun') hheld
    rw [hun] at hun'
    cases hun'
  have hposition : ∀ t ch i x, position (s.pc t) = some (ch, i, x) → unlinking (s.pc t) = none →
      (s.shared.proxy x).released = false := by
    intro t ch i x hpos hun
    exact hlisted t ch x (channelHeld_of_position hpos) hun
      (List.mem_of_getElem? (hreleased.position t ch i x hpos))
  intro t hlive x hx
  have hused : usedProxy s.shared (s.pc t) = some x → (s.shared.proxy x).released = false :=
    huse.live t x hlive
  cases hpc : s.pc t with
  | publisherTask arg p =>
      rw [hpc] at hx
      cases p with
      | next ch i =>
          have hmem : (s.shared.channel ch).subscriberProxies[i]? = some x := by
            simpa [lookups] using hx
          exact hlisted t ch x (by rw [hpc]; rfl) (by rw [hpc]; rfl) (List.mem_of_getElem? hmem)
      | testActive ch i y | enqueue ch i y | lockInbox ch i y | signal ch i y
      | unlockInbox ch i y =>
          obtain rfl : x = y := List.mem_singleton.mp hx
          exact hposition t ch i x (by rw [hpc]; rfl) (by rw [hpc]; rfl)
      | _ => cases hx
  | subscribe name id p =>
      rw [hpc] at hx
      cases p with
      | freeProxy y f =>
          obtain rfl : x = y := List.mem_singleton.mp hx
          exact (hreleased.outside t x (by rw [hpc]; rfl)).2
      | _ => cases hx
  | unsubscribe k thenFree u =>
      rw [hpc] at hx hused
      cases u with
      | deactivate | lockInbox | broadcast | unlockInbox =>
          exact hused (by simpa [lookups, usedProxy, usedPointer] using hx)
      | search ch => exact hlisted t ch x (by rw [hpc]; rfl) (by rw [hpc]; rfl) hx
      | freeProxy ch i y f =>
          obtain rfl : x = y := List.mem_singleton.mp hx
          exact hposition t ch i x (by rw [hpc]; rfl) (by rw [hpc]; rfl)
      | _ => cases hx
  | receive k tryReceive r =>
      rw [hpc] at hx hused
      cases r with
      | testActive | testProxy | load => cases hx
      | _ => exact hused (by simpa [lookups, usedProxy, usedPointer, loadedProxy] using hx)
  | pendingCount k b =>
      rw [hpc] at hx hused
      cases b with
      | false => cases hx
      | true => exact hused (by simpa [lookups, usedProxy, usedPointer] using hx)
  | _ =>
      rw [hpc] at hx
      cases hx

/-- Every state of a run that meets the condition is safe. -/
theorem safe_of_run {tr : List (Event n)} {s : State n}
    (h : (machine n capacity hcap).RunIf ReleasesUnused tr s) : Safe s :=
  safe_of_inv (useInv_of_run h) (releasedInv_of_run h) (channelInv_of_run h)

/-! ### Receives that an unsubscribe has woken up -/

/-- A step of the thread `t` locks inbox mutexes for `t` only and parks only `t`. -/
structure InboxAccess (t : Tid n) (sh sh' : Shared n) : Prop where
  mutex : ∀ x t', (sh'.proxy x).inboxMutex = some t' → (sh.proxy x).inboxMutex = some t' ∨ t' = t
  cond : ∀ x t', t' ∈ (sh'.proxy x).inboxCond → t' ∈ (sh.proxy x).inboxCond ∨ t' = t

section
variable {t : Tid n} {sh sh' : Shared n} {pc pc' : Pc} {e : Option (Event n)}

/-- A step that leaves the proxies alone. -/
theorem inboxAccess_of_same (hproxy : sh'.proxy = sh.proxy) : InboxAccess t sh sh' :=
  ⟨fun _ _ h => Or.inl (hproxy ▸ h), fun _ _ h => Or.inl (hproxy ▸ h)⟩

/-- A write to a proxy. -/
theorem inboxAccess_setProxy {y : Nat} {p : SubscriberProxy n}
    (hmutex : p.inboxMutex = (sh.proxy y).inboxMutex ∨ p.inboxMutex = none ∨ p.inboxMutex = some t)
    (hcond : p.inboxCond ⊆ insert t (sh.proxy y).inboxCond) :
    InboxAccess t sh (sh.setProxy y p) := by
  constructor
  · intro x t' h
    rw [setProxy_proxy] at h
    by_cases hxy : x = y
    · rw [if_pos hxy] at h
      rcases hmutex with hm | hm | hm <;> rw [hm] at h
      · exact Or.inl (hxy ▸ h)
      · cases h
      · exact Or.inr (Option.some.inj h).symm
    · rw [if_neg hxy] at h
      exact Or.inl h
  · intro x t' h
    rw [setProxy_proxy] at h
    by_cases hxy : x = y
    · rw [if_pos hxy] at h
      rcases Finset.mem_insert.mp (hcond h) with ht | hin
      · exact Or.inr ht
      · exact Or.inl (hxy ▸ hin)
    · rw [if_neg hxy] at h
      exact Or.inl h

/-- A lock of an inbox mutex. -/
theorem inboxAccess_lockInbox {x : Nat} (h : sh.lockInbox t x = some sh') :
    InboxAccess t sh sh' := by
  simp only [Shared.lockInbox, Option.map_eq_some_iff, lockMutex_eq_some] at h
  obtain ⟨m, ⟨-, rfl⟩, rfl⟩ := h
  exact inboxAccess_setProxy (Or.inr (Or.inr rfl)) (Finset.subset_insert _ _)

/-- A step of the release of a proxy. -/
theorem subscriberProxyFree_inboxAccess {x : Nat} {f : ProxyFreePc} {r : ProxyFreeResult}
    (h : subscriberProxyFree t x sh f = some (sh', r)) : InboxAccess t sh sh' := by
  unfold subscriberProxyFree at h
  split_ifs at h
  · obtain ⟨rfl, -⟩ := Prod.mk.inj (Option.some.inj h)
    exact inboxAccess_of_same rfl
  · cases f with
    | lock =>
        simp only [Option.map_eq_some_iff] at h
        obtain ⟨sh₁, hlock, heq⟩ := h
        obtain ⟨rfl, -⟩ := Prod.mk.inj heq
        exact inboxAccess_lockInbox hlock
    | deactivate =>
        obtain ⟨rfl, -⟩ := Prod.mk.inj (Option.some.inj h)
        exact inboxAccess_setProxy (Or.inl rfl) (Finset.subset_insert _ _)
    | broadcast =>
        obtain ⟨rfl, -⟩ := Prod.mk.inj (Option.some.inj h)
        exact inboxAccess_setProxy (Or.inl rfl) (Finset.empty_subset _)
    | unlock =>
        obtain ⟨rfl, -⟩ := Prod.mk.inj (Option.some.inj h)
        exact inboxAccess_setProxy (Or.inr (Or.inl rfl)) (Finset.subset_insert _ _)
    | release =>
        obtain ⟨rfl, -⟩ := Prod.mk.inj (Option.some.inj h)
        exact inboxAccess_setProxy (Or.inl rfl) (Finset.subset_insert _ _)

/-- A step of the critical section of an unsubscribe. -/
theorem subscriptionUnsubscribe_inboxAccess {k : Nat} {thenFree : Bool} {u : UnsubscribePc}
    {move : Move n} (h : subscriptionUnsubscribe t k thenFree sh u move = some (.step sh' pc' e))
    (hu : u = .lockInbox ∨ u = .broadcast ∨ u = .unlockInbox) : InboxAccess t sh sh' := by
  obtain rfl : move = .go := by
    rcases hu with rfl | rfl | rfl <;> cases move <;> first | rfl | cases h
  rcases hu with rfl | rfl | rfl
  · simp only [subscriptionUnsubscribe, derefProxy_eq_step, Option.map_eq_some_iff] at h
    obtain ⟨-, x, -, -, sh₁, hlock, heq⟩ := h
    obtain ⟨rfl, -, -⟩ := Outcome.step.inj heq
    exact inboxAccess_lockInbox hlock
  · simp only [subscriptionUnsubscribe, derefProxy_eq_step, Option.some.injEq,
      Outcome.step.injEq] at h
    obtain ⟨-, x, -, -, rfl, -, -⟩ := h
    exact inboxAccess_setProxy (Or.inl rfl) (Finset.empty_subset _)
  · simp only [subscriptionUnsubscribe, derefProxy_eq_step, Option.some.injEq,
      Outcome.step.injEq] at h
    obtain ⟨-, x, -, -, rfl, -, -⟩ := h
    exact inboxAccess_setProxy (Or.inr (Or.inl rfl)) (Finset.subset_insert _ _)

/-- A step of a receive. -/
theorem ReceiveStep.inboxAccess {k : Nat} {tryReceive : Bool} {r : ReceivePc}
    (h : ReceiveStep t k tryReceive sh r sh' pc' e) : InboxAccess t sh sh' := by
  cases h with
  | lock r x hr hfree =>
      exact inboxAccess_setProxy (Or.inr (Or.inr rfl)) (Finset.subset_insert _ _)
  | condWait x => exact inboxAccess_setProxy (Or.inr (Or.inl rfl)) (Finset.Subset.refl _)
  | wakeup x =>
      refine inboxAccess_setProxy (Or.inl rfl) ?_
      exact (Finset.erase_subset _ _).trans (Finset.subset_insert _ _)
  | unlockInactive x | unlock x =>
      exact inboxAccess_setProxy (Or.inr (Or.inl rfl)) (Finset.subset_insert _ _)
  | got x => exact inboxAccess_setProxy (Or.inl rfl) (Finset.subset_insert _ _)
  | _ => exact inboxAccess_of_same rfl

/-- A step of a thread inside a broker function. -/
theorem threadFunction_inboxAccess {move : Move n}
    (h : threadFunction t sh pc move = some (.step sh' pc' e)) : InboxAccess t sh sh' := by
  cases hrec : inReceive pc with
  | true =>
      cases pc with
      | receive k tryReceive r => exact (subscriptionReceive_receiveStep h).2.inboxAccess
      | _ => cases hrec
  | false =>
      rcases threadFunction_cases h with hstep | ⟨hstep, -⟩
      · cases hstep with
        | receiveRead hret | got x => cases hrec
        | receiveInbox x p hp hinbox hret => cases hrec
        | taskMore hg | taskFound hg | subscribeMore hg | subscribeFound hg =>
            exact inboxAccess_of_same hg.proxy.1
        | put ch i x => exact inboxAccess_setProxy (Or.inl rfl) (Finset.subset_insert _ _)
        | taskLockInbox ch i x hfree =>
            exact inboxAccess_setProxy (Or.inr (Or.inr rfl)) (Finset.subset_insert _ _)
        | taskSignal ch i x waiting =>
            obtain ⟨-, ⟨r, -, hsh⟩ | ⟨-, hsh⟩⟩ := signal_cases (t := t) h
            · rw [hsh]
              refine inboxAccess_setProxy (Or.inl rfl) ?_
              exact (Finset.erase_subset _ _).trans (Finset.subset_insert _ _)
            · rw [hsh]
              exact inboxAccess_of_same rfl
        | taskUnlockInbox ch i x =>
            exact inboxAccess_setProxy (Or.inr (Or.inl rfl)) (Finset.subset_insert _ _)
        | @newProxy name id ch =>
            have hset : InboxAccess t sh
                (sh.setProxy sh.nextProxy ⟨id, [], none, ∅, true, false, ch⟩) :=
              inboxAccess_setProxy (Or.inr (Or.inl rfl)) (Finset.empty_subset _)
            exact ⟨hset.mutex, hset.cond⟩
        | deactivate x hx => exact inboxAccess_setProxy (Or.inl rfl) (Finset.subset_insert _ _)
        | unsubscribeInbox x p u u' hp hinbox hu =>
            refine subscriptionUnsubscribe_inboxAccess h ?_
            rcases hu with ⟨rfl, -⟩ | ⟨rfl, -⟩ | ⟨rfl, -⟩ <;> simp
        | freeDeactivate ch i x =>
            exact inboxAccess_setProxy (Or.inl rfl) (Finset.subset_insert _ _)
        | freeRelease ch i x =>
            exact inboxAccess_setProxy (Or.inl rfl) (Finset.subset_insert _ _)
        | freeInbox ch i x p f f' hp hinbox hf =>
            obtain rfl : move = .go := by cases move <;> first | rfl | cases h
            simp only [threadFunction, subscriptionUnsubscribe, Option.map_eq_some_iff] at h
            obtain ⟨⟨sh₁, r⟩, hfree, hr⟩ := h
            cases r with
            | fault => cases hr
            | _ =>
                obtain ⟨rfl, -, -⟩ := Outcome.step.inj hr
                exact subscriberProxyFree_inboxAccess hfree
        | _ => exact inboxAccess_of_same rfl
      · cases hstep with
        | taskMore hg | taskFailed hg | subscribeMore hg | subscribeFailed hg =>
            exact inboxAccess_of_same hg.proxy.1
        | freeDeactivate x => exact inboxAccess_setProxy (Or.inl rfl) (Finset.subset_insert _ _)
        | freeRelease x => exact inboxAccess_setProxy (Or.inl rfl) (Finset.subset_insert _ _)
        | freeInbox x p f f' hp hinbox hf =>
            obtain rfl : move = .go := by cases move <;> first | rfl | cases h
            simp only [threadFunction, messageBrokerSubscribe, Option.map_eq_some_iff] at h
            obtain ⟨⟨sh₁, r⟩, hfree, hr⟩ := h
            cases r with
            | fault => cases hr
            | _ =>
                obtain ⟨rfl, -, -⟩ := Outcome.step.inj hr
                exact subscriberProxyFree_inboxAccess hfree
        | _ => exact inboxAccess_of_same rfl

end

/-- A parked receive does not hold the mutex of its inbox. -/
def ParkedInv (s : State n) : Prop :=
  ∀ t k tryReceive x, s.pc t = .receive k tryReceive (.parked x) →
    (s.shared.proxy x).inboxMutex ≠ some t

/-- `ParkedInv` holds in every state of a run. -/
theorem parkedInv_of_run {K : State n → Action n → Prop} {tr : List (Event n)} {s : State n}
    (h : (machine n capacity hcap).RunIf K tr s) : ParkedInv s := by
  refine h.induction (I := fun _ s => ParkedInv s) (fun t k b x hpc => (by cases hpc)) ?_
  intro tr s a s' e _ hinv _ hnext
  rcases next_cases hnext with ⟨b, pool, t, pc, e', -, -, rfl, -, hnew, rfl⟩ |
      ⟨t, move, sh, pc, rfl, hf, rfl⟩ | ⟨t, rfl, rfl⟩
  · refine forall_update (P := fun t' (pc : Pc) => ∀ k b x, pc = .receive k b (.parked x) →
      (s.shared.proxy x).inboxMutex ≠ some t') ?_ fun t' _ => hinv t'
    intro k b x hpc
    rw [hpc] at hnew
    cases hnew
  · have haccess := threadFunction_inboxAccess hf
    refine forall_update (P := fun t' (pc : Pc) => ∀ k b x, pc = .receive k b (.parked x) →
      (sh.proxy x).inboxMutex ≠ some t') ?_ ?_
    · intro k b x hpc
      cases hpc₀ : s.pc t with
      | receive k' b' r =>
          rw [hpc₀] at hf
          cases (subscriptionReceive_receiveStep hf).2 with
          | condWait y =>
              cases hpc
              simp [setProxy_proxy]
          | wakeup y =>
              cases hpc
              rw [setProxy_proxy, if_pos rfl]
              exact hinv t k b x hpc₀
          | test r r' hr => rcases hr with ⟨-, rfl⟩ | ⟨-, rfl⟩ | ⟨-, rfl⟩ <;> cases hpc
          | load y hy => cases b' <;> cases hpc
          | _ => cases hpc
      | _ =>
          obtain ⟨k', b', hpc'⟩ := threadFunction_receiveCall hf (by rw [hpc₀]; rfl)
            (by rw [hpc]; rfl)
          rw [hpc] at hpc'
          cases hpc'
    · intro t' ht k b x hpc hmutex
      rcases haccess.mutex x t' hmutex with hold | heq
      · exact hinv t' k b x hpc hold
      · exact ht heq
  · exact hinv

/-- The number of steps from a program point of a blocked receive to its return, when the proxy is
inactive. -/
def exitSteps : ReceivePc → Nat
  | .parked _ => 5
  | .testEmpty _ => 4
  | .testActiveLoop _ => 3
  | .testActiveExit _ => 2
  | .unlockInactive _ => 1
  | _ => 0

/-- A blocked receive has been woken up after its proxy was deactivated. -/
structure Woken (s : State n) (r : Tid n) (k x : Nat) (p : ReceivePc) : Prop where
  pc : s.pc r = .receive k false p
  proxy : receiveProxy p = some x
  leaving : 0 < exitSteps p
  faulted : s.faulted r = false
  inactive : (s.shared.proxy x).active = false
  awake : r ∉ (s.shared.proxy x).inboxCond

/-- The event is the return of a receive of the thread. -/
def isReceiveReturn (r : Tid n) : Event n → Bool
  | .got t _ _ _ | .receiveFailed t _ => t = r
  | _ => false

section
variable {s s' : State n} {r : Tid n} {k x : Nat} {p : ReceivePc}

/-- A step of a receive on its way out: it goes on without a message, or it returns 1. -/
theorem Woken.step (h : Woken s r k x p) (hlive : (s.shared.proxy x).released = false)
    {move : Move n} {o : Outcome n}
    (hf : threadFunction r s.shared (.receive k false p) move = some o) :
    (∃ sh p', o = .step sh (.receive k false p') none ∧ receiveProxy p' = some x ∧
      0 < exitSteps p' ∧ exitSteps p' < exitSteps p ∧
      (sh.proxy x).active = false ∧ (sh.proxy x).inboxCond = (s.shared.proxy x).inboxCond) ∨
    ∃ sh, o = .step sh .idle (some (.receiveFailed r k)) := by
  have hderef : ∀ o : Option (Outcome n), s.shared.deref x o = o := by
    intro o
    simp [Shared.deref, hlive]
  have hinactive := h.inactive
  have hx := h.proxy
  obtain rfl : move = .go := by
    cases p <;> cases move <;> first | rfl | cases hf
  cases p with
  | parked y =>
      obtain rfl : y = x := Option.some.inj hx
      simp only [threadFunction, subscriptionReceive, hderef, if_neg h.awake, Option.map_eq_some_iff]
        at hf
      obtain ⟨sh, hlock, rfl⟩ := hf
      simp only [Shared.lockInbox, Option.map_eq_some_iff] at hlock
      obtain ⟨m, -, rfl⟩ := hlock
      refine Or.inl ⟨_, _, rfl, rfl, by simp [exitSteps], by simp [exitSteps], ?_, ?_⟩
      · simp [setProxy_proxy, hinactive]
      · simp [setProxy_proxy]
  | testEmpty y =>
      obtain rfl : y = x := Option.some.inj hx
      simp only [threadFunction, subscriptionReceive, hderef] at hf
      obtain rfl := Option.some.inj hf
      refine Or.inl ⟨_, _, rfl, ?_, ?_, ?_, hinactive, rfl⟩ <;>
        split_ifs <;> first | rfl | simp [exitSteps]
  | testActiveLoop y =>
      obtain rfl : y = x := Option.some.inj hx
      simp only [threadFunction, subscriptionReceive, hderef, hinactive] at hf
      obtain rfl := Option.some.inj hf
      exact Or.inl ⟨_, _, rfl, rfl, by simp [exitSteps], by simp [exitSteps], hinactive, rfl⟩
  | testActiveExit y =>
      obtain rfl : y = x := Option.some.inj hx
      simp only [threadFunction, subscriptionReceive, hderef, hinactive] at hf
      obtain rfl := Option.some.inj hf
      exact Or.inl ⟨_, _, rfl, rfl, by simp [exitSteps], by simp [exitSteps], hinactive, rfl⟩
  | unlockInactive y =>
      obtain rfl : y = x := Option.some.inj hx
      simp only [threadFunction, subscriptionReceive, hderef] at hf
      obtain rfl := Option.some.inj hf
      exact Or.inr ⟨_, rfl⟩
  | _ => exact absurd h.leaving (lt_irrefl 0)

/-- The step of the receive in the machine. -/
theorem Woken.next_own (h : Woken s r k x p) (hlive : (s.shared.proxy x).released = false)
    {move : Move n} {e : Option (Event n)} (hnext : next s (.thread r move) = some (s', e)) :
    (e = none ∧ ∃ p', Woken s' r k x p' ∧ exitSteps p' < exitSteps p) ∨
    (e = some (.receiveFailed r k) ∧ s'.pc r = .idle ∧ s'.faulted r = false) := by
  simp only [next, Option.ite_none_left_eq_some, Option.map_eq_some_iff, h.pc] at hnext
  obtain ⟨-, o, ho, hs⟩ := hnext
  rcases h.step hlive ho with ⟨sh, p', rfl, hproxy, hpos, hlt, hinactive, hcond⟩ | ⟨sh, rfl⟩
  · obtain ⟨rfl, rfl⟩ := Prod.mk.inj hs
    refine Or.inl ⟨rfl, p', ⟨Function.update_self .., hproxy, hpos, h.faulted, hinactive, ?_⟩, hlt⟩
    show r ∉ (sh.proxy x).inboxCond
    rw [hcond]
    exact h.awake
  · obtain ⟨rfl, rfl⟩ := Prod.mk.inj hs
    exact Or.inr ⟨rfl, Function.update_self .., h.faulted⟩

/-- A receive on its way out can take its next step, or another thread holds the mutex of the
inbox. -/
theorem Woken.enabled (h : Woken s r k x p) (hlive : (s.shared.proxy x).released = false)
    (hparked : ParkedInv s) :
    (∃ s' e, next s (.thread r .go) = some (s', e)) ∨
    ∃ t, t ≠ r ∧ (s.shared.proxy x).inboxMutex = some t := by
  have hderef : ∀ o : Option (Outcome n), s.shared.deref x o = o := by
    intro o
    simp [Shared.deref, hlive]
  have hx := h.proxy
  have hgo : (∃ o, threadFunction r s.shared (.receive k false p) .go = some o) →
      ∃ s' e, next s (.thread r .go) = some (s', e) := by
    rintro ⟨o, ho⟩
    simp only [next, h.faulted, h.pc, ho]
    cases o <;> exact ⟨_, _, rfl⟩
  cases p with
  | parked y =>
      obtain rfl : y = x := Option.some.inj hx
      cases hmutex : (s.shared.proxy y).inboxMutex with
      | none =>
          refine Or.inl (hgo ?_)
          simp [threadFunction, subscriptionReceive, hderef, h.awake, Shared.lockInbox, lockMutex,
            hmutex]
      | some t =>
          refine Or.inr ⟨t, ?_, rfl⟩
          rintro rfl
          exact hparked t k false y h.pc hmutex
  | testEmpty y | testActiveLoop y | testActiveExit y | unlockInactive y =>
      obtain rfl : y = x := Option.some.inj hx
      exact Or.inl (hgo (by simp [threadFunction, subscriptionReceive, hderef]))
  | _ => exact absurd h.leaving (lt_irrefl 0)

/-- A thread shows only the returns of its own receives. -/
theorem threadFunction_isReceiveReturn {t : Tid n} {sh sh' : Shared n} {pc pc' : Pc}
    {move : Move n} {y : Event n} (h : threadFunction t sh pc move = some (.step sh' pc' (some y)))
    (hy : isReceiveReturn r y = true) : t = r := by
  rcases threadFunction_cases h with hstep | ⟨hstep, -⟩
  · generalize he : some y = e at hstep
    cases hstep with
    | unsubscribeInactive hret | clearProxy hret =>
        rcases hret with ⟨-, rfl⟩ | ⟨-, rfl⟩ <;> cases he
        cases hy
    | receiveRead hret =>
        rcases hret with ⟨r', -, rfl⟩ | ⟨-, rfl⟩ <;> cases he
        exact of_decide_eq_true hy
    | receiveInbox z q hq hinbox hret =>
        rcases hret with ⟨r', -, rfl⟩ | ⟨-, rfl⟩ <;> cases he
        exact of_decide_eq_true hy
    | pendingRead hret =>
        rcases hret with ⟨-, rfl⟩ | ⟨-, count, rfl⟩ <;> cases he
        cases hy
    | got z =>
        cases he
        exact of_decide_eq_true hy
    | _ => cases he <;> cases hy
  · generalize he : some y = e at hstep
    cases hstep <;> cases he <;> cases hy

/-- A step of another thread leaves the receive on its way out. -/
theorem Woken.next_other (h : Woken s r k x p) (hx : x < s.shared.nextProxy)
    {a : Action n} {e : Option (Event n)} (hnext : next s a = some (s', e))
    (hother : ∀ move, a ≠ .thread r move) :
    Woken s' r k x p ∧ e.toList.find? (isReceiveReturn r) = none := by
  have hfaulted : s'.faulted r = false := by
    rcases next_faulted hnext r with hsame | ⟨move, ha, -⟩
    · exact hsame.trans h.faulted
    · exact absurd ha (hother move)
  rcases next_cases hnext with ⟨b, pool, t, pc, e', hstep, -, rfl, hold, -, rfl⟩ |
      ⟨t, move, sh, pc, rfl, hf, rfl⟩ | ⟨t, rfl, rfl⟩
  · have hne : r ≠ t := by
      rintro rfl
      rw [h.pc] at hold
      cases hold
    refine ⟨⟨?_, h.proxy, h.leaving, hfaulted, h.inactive, h.awake⟩, ?_⟩
    · exact (Function.update_of_ne hne ..).trans h.pc
    · cases e' <;> rfl
  · have hne : t ≠ r := fun heq => hother move (by rw [heq])
    refine ⟨⟨?_, h.proxy, h.leaving, hfaulted, ?_, ?_⟩, ?_⟩
    · exact (Function.update_of_ne hne.symm ..).trans h.pc
    · exact threadFunction_inactive hf (fun _ _ _ => hx.ne) h.inactive
    · intro hin
      rcases (threadFunction_inboxAccess hf).cond x r hin with hold | heq
      · exact h.awake hold
      · exact hne heq.symm
    · cases e with
      | none => rfl
      | some y =>
          rw [Option.toList_some, List.find?_singleton, if_neg]
          exact fun hy => hne (threadFunction_isReceiveReturn hf hy)
  · exact ⟨⟨h.pc, h.proxy, h.leaving, hfaulted, h.inactive, h.awake⟩, rfl⟩

end

/-- The receive goes on to its return without a message: it can take its next step, unless another
thread holds the mutex of the inbox, and each of its steps brings it closer to the return of 1. -/
structure OnItsWayOut (s : State n) (r : Tid n) (k x : Nat) (p : ReceivePc) : Prop where
  pc : s.pc r = .receive k false p
  enabled : (∃ s' e, next s (.thread r .go) = some (s', e)) ∨
    ∃ t, t ≠ r ∧ (s.shared.proxy x).inboxMutex = some t
  step : ∀ move s' e, next s (.thread r move) = some (s', e) → s'.faulted r = false ∧
    ((e = none ∧ ∃ p', s'.pc r = .receive k false p' ∧ exitSteps p' < exitSteps p) ∨
      (e = some (.receiveFailed r k) ∧ s'.pc r = .idle))

/-- In the events since the wakeup the receive has returned 1 without a message, or it has not
returned and is on its way out. -/
def ReturnsNull (r : Tid n) (k x : Nat) (tr : List (Event n)) (s : State n) : Prop :=
  tr.find? (isReceiveReturn r) = some (.receiveFailed r k) ∨
  (tr.find? (isReceiveReturn r) = none ∧ ∃ p, OnItsWayOut s r k x p)

/-- The broadcast of an unsubscribe wakes a receive that is parked at the proxy. -/
theorem woken_of_broadcast {tr : List (Event n)} {s s₁ : State n} {t r : Tid n} {k x : Nat}
    {thenFree : Bool} {e : Option (Event n)}
    (h : (machine n capacity hcap).RunIf ReleasesUnused tr s)
    (hpc : s.pc t = .unsubscribe k thenFree .broadcast)
    (hpointer : (s.shared.subscription k).proxy = some x)
    (hparked : s.pc r = .receive k false (.parked x)) (hlive : s.faulted r = false)
    (hnext : next s (.thread t .go) = some (s₁, e)) (hstep : s₁.faulted t = false) :
    e = none ∧ Woken s₁ r k x (.parked x) := by
  have hne : r ≠ t := by
    rintro rfl
    rw [hparked] at hpc
    cases hpc
  have hinactive : (s.shared.proxy x).active = false := by
    refine (closingInv_of_run h).inactive t x ?_
    rw [hpc]
    exact hpointer
  have hreleased : (s.shared.proxy x).released = false := by
    refine (useInv_of_run h).live r x hlive ?_
    rw [hparked]
    rfl
  simp only [next, Option.ite_none_left_eq_some, Option.map_eq_some_iff, hpc] at hnext
  obtain ⟨-, o, ho, hs⟩ := hnext
  by_cases hfreed : (s.shared.subscription k).released = true
  · -- the subscription has been freed
    simp only [threadFunction, subscriptionUnsubscribe, Shared.derefProxy,
      Shared.derefSubscription, hfreed, if_true] at ho
    obtain rfl := Option.some.inj ho
    obtain ⟨rfl, rfl⟩ := Prod.mk.inj hs
    have hfaulted : Function.update s.faulted t true t = false := hstep
    rw [Function.update_self] at hfaulted
    cases hfaulted
  · simp only [threadFunction, subscriptionUnsubscribe, Shared.derefProxy, hpointer, Shared.deref,
      hreleased, Shared.derefSubscription, hfreed] at ho
    obtain rfl := Option.some.inj ho
    obtain ⟨rfl, rfl⟩ := Prod.mk.inj hs
    refine ⟨rfl, (Function.update_of_ne hne ..).trans hparked, rfl, by simp [exitSteps], hlive,
      ?_, ?_⟩
    · simp [Shared.broadcastInbox, setProxy_proxy, hinactive]
    · simp [Shared.broadcastInbox, setProxy_proxy]

/-- A receive that an unsubscribe has woken up returns 1. -/
theorem returnsNull_of_run {tr₁ : List (Event n)} {s₁ : State n} {r : Tid n} {k x : Nat}
    {p : ReceivePc} (h₁ : (machine n capacity hcap).RunIf ReleasesUnused tr₁ s₁)
    (hwoken : Woken s₁ r k x p) {tr : List (Event n)} {s : State n}
    (h : ((machine n capacity hcap).startAt s₁).RunIf ReleasesUnused tr s) :
    ReturnsNull r k x tr s := by
  have hlive : ∀ {tr s p}, (machine n capacity hcap).RunIf ReleasesUnused tr s →
      Woken s r k x p → (s.shared.proxy x).released = false := by
    intro tr s p hrun hw
    refine (useInv_of_run hrun).live r x hw.faulted ?_
    refine usedProxy_eq_some.mpr (Or.inr ⟨k, ?_⟩)
    rw [hw.pc, loadedProxy, hw.proxy]
    rfl
  -- the receive is woken until it returns
  have hphase : tr.find? (isReceiveReturn r) = some (.receiveFailed r k) ∨
      (tr.find? (isReceiveReturn r) = none ∧ ∃ p, Woken s r k x p) := by
    refine h.induction (I := fun tr s => tr.find? (isReceiveReturn r) = some (.receiveFailed r k) ∨
      (tr.find? (isReceiveReturn r) = none ∧ ∃ p, Woken s r k x p)) (Or.inr ⟨rfl, p, hwoken⟩) ?_
    intro tr s a s' e hmid ih hK hnext
    have hrun := h₁.trans hmid
    rcases ih with hret | ⟨hnone, p, hw⟩
    · exact Or.inl (by rw [List.find?_append, hret]; rfl)
    · rw [List.find?_append, hnone, Option.none_or]
      by_cases hown : ∃ move, a = .thread r move
      · obtain ⟨move, rfl⟩ := hown
        rcases hw.next_own (hlive hrun hw) hnext with ⟨rfl, p', hw', -⟩ | ⟨rfl, -, -⟩
        · exact Or.inr ⟨rfl, p', hw'⟩
        · exact Or.inl (by simp [isReceiveReturn])
      · have hx : x < s.shared.nextProxy := by
          refine (inboxInv_of_run hrun).pc r x ?_
          rw [hw.pc]
          exact hw.proxy
        obtain ⟨hw', hnone'⟩ := hw.next_other hx hnext fun move heq => hown ⟨move, heq⟩
        exact Or.inr ⟨hnone', p, hw'⟩
  have hrun := h₁.trans h
  rcases hphase with hret | ⟨hnone, p, hw⟩
  · exact Or.inl hret
  · refine Or.inr ⟨hnone, p, hw.pc, hw.enabled (hlive hrun hw) (parkedInv_of_run hrun), ?_⟩
    intro move s' e hnext
    rcases hw.next_own (hlive hrun hw) hnext with ⟨rfl, p', hw', hlt⟩ | ⟨rfl, hidle, hfaulted⟩
    · exact ⟨hw'.faulted, Or.inl ⟨rfl, p', hw'.pc, hlt⟩⟩
    · exact ⟨hfaulted, Or.inr ⟨rfl, hidle⟩⟩

/-- An unsubscribe is safe for the other users of the broker, as long as it releases the proxy only
when no other call uses it, and no call passes its test of the pointer between the release and the
end of the unsubscribe. Then no thread looks up a released proxy, and a receive that the broadcast
of an unsubscribe finds parked returns 1 without a message. -/
theorem concurrent_unsubscribe_safe {tr : List (Event n)} {s : State n}
    (h : (machine n capacity hcap).RunIf ReleasesUnused tr s) :
    Safe s ∧ ∀ t r k thenFree x s₁ e, s.pc t = .unsubscribe k thenFree .broadcast →
      (s.shared.subscription k).proxy = some x → s.pc r = .receive k false (.parked x) →
      s.faulted r = false → next s (.thread t .go) = some (s₁, e) → s₁.faulted t = false →
      ∀ tr' s', ((machine n capacity hcap).startAt s₁).RunIf ReleasesUnused tr' s' →
        ReturnsNull r k x tr' s' := by
  refine ⟨safe_of_run h, ?_⟩
  intro t r k thenFree x s₁ e hpc hpointer hparked hlive hnext hstep tr' s' h'
  obtain ⟨rfl, hwoken⟩ := woken_of_broadcast h hpc hpointer hparked hlive hnext hstep
  have hK : ReleasesUnused s (.thread t .go) := by
    rw [ReleasesUnused, hpc]
    exact ⟨fun x hx => (by cases hx), fun k x hk => (by cases hk)⟩
  exact returnsNull_of_run (h.snoc hK hnext) hwoken h'

/-! ### The condition in replays -/

/-- Only the clients 0 and 1 take steps, and the steps release proxies that they do not use. -/
def TwoClients (s : State n) : Action n → Prop
  | .thread t _ => t ∈ [Tid.client 0, .client 1] ∧
      (∀ x ∈ (releasedNext (s.pc t)).toList, ∀ t' ∈ [Tid.client 0, .client 1], t' ≠ t →
        usedProxy s.shared (s.pc t') ≠ some x) ∧
      ∀ k ∈ (testedPointer (s.pc t)).toList, ∀ x ∈ (s.shared.subscription k).proxy.toList,
        (s.shared.proxy x).released = false
  | _ => False

instance (s : State n) (a : Action n) : Decidable (TwoClients s a) :=
  match a with
  | .thread t _ => inferInstanceAs (Decidable (t ∈ [Tid.client 0, .client 1] ∧
      (∀ x ∈ (releasedNext (s.pc t)).toList, ∀ t' ∈ [Tid.client 0, .client 1], t' ≠ t →
        usedProxy s.shared (s.pc t') ≠ some x) ∧
      ∀ k ∈ (testedPointer (s.pc t)).toList, ∀ x ∈ (s.shared.subscription k).proxy.toList,
        (s.shared.proxy x).released = false))
  | .dispatcher _ | .submit _ | .wait _ | .pool _ _ => inferInstanceAs (Decidable False)

/-- The threads other than the clients 0 and 1 are idle. -/
def OthersIdle (s : State n) : Prop := ∀ t, t ∉ [Tid.client 0, .client 1] → s.pc t = .idle

/-- The steps of the two clients leave the other threads idle. -/
theorem othersIdle_of_run {s₀ : State n} (hidle : OthersIdle s₀) {tr : List (Event n)}
    {s : State n} (h : ((machine n capacity hcap).startAt s₀).RunIf TwoClients tr s) :
    OthersIdle s := by
  refine h.induction (I := fun _ s => OthersIdle s) hidle ?_
  intro tr s a s' e _ hinv hK hnext t ht
  cases a with
  | thread t₀ move =>
      have hne : t ≠ t₀ := fun heq => ht (heq ▸ hK.1)
      have hstep : next s (.thread t₀ move) = some (s', e) := hnext
      rcases next_cases hstep with ⟨b, pool, t₁, pc, e', hpool, -⟩ |
          ⟨t₁, move', sh, pc, ha, -, rfl⟩ | ⟨t₁, -, rfl⟩
      · cases hpool
      · obtain ⟨rfl, -⟩ := Action.thread.inj ha
        exact (Function.update_of_ne hne ..).trans (hinv t ht)
      · exact hinv t ht
  | _ => exact absurd hK id

/-- The runs of the two clients have the condition. -/
theorem releasesUnused_of_twoClients {s₀ : State n} (hidle : OthersIdle s₀) {tr : List (Event n)}
    {s : State n} (h : ((machine n capacity hcap).startAt s₀).RunIf TwoClients tr s) :
    ((machine n capacity hcap).startAt s₀).RunIf ReleasesUnused tr s := by
  refine h.mono_of_run ?_
  intro tr s a s' e hrun hK _
  have hothers := othersIdle_of_run hidle hrun
  cases a with
  | thread t move =>
      obtain ⟨-, hunused, htest⟩ := hK
      refine ⟨fun x hx t' ht' _ => ?_, fun k x hk hproxy => ?_⟩
      · by_cases hmem : t' ∈ [Tid.client 0, .client 1]
        · exact hunused x (Option.mem_toList.mpr hx) t' hmem ht'
        · rw [hothers t' hmem]
          exact fun heq => (by cases heq)
      · exact htest k (Option.mem_toList.mpr hk) x (Option.mem_toList.mpr hproxy)
  | _ => trivial

/-- A thread that is not faulted at the end of a run was not faulted before. -/
theorem faulted_of_run {K : State n → Action n → Prop} {s₀ : State n} {t : Tid n}
    {tr : List (Event n)} {s : State n} (h : ((machine n capacity hcap).startAt s₀).RunIf K tr s)
    (hlive : s.faulted t = false) : s₀.faulted t = false := by
  have hstays : s.faulted t = false → s₀.faulted t = false := by
    refine h.induction (I := fun _ s => s.faulted t = false → s₀.faulted t = false) id ?_
    intro tr s a s' e _ ih _ hnext hlive
    by_cases hfaulted : s.faulted t = true
    · rcases next_faulted hnext t with hsame | ⟨move, rfl, -⟩
      · rw [hsame, hfaulted] at hlive
        cases hlive
      · have hstep : next s (.thread t move) = some (s', e) := hnext
        rw [next, if_pos hfaulted] at hstep
        cases hstep
    · exact ih (eq_false_of_ne_true hfaulted)
  exact hstays hlive

/-! ### Two runs of one receive -/

/-- Client 0 subscribes and client 1 waits for a message. Client 0 then unsubscribes, for `i`
steps. -/
def unsubscribeSchedule (i : Nat) : List (Action n) :=
  subscribeSchedule 0 nameC true
    ++ .thread (.client 1) (.callReceive 0 false) :: List.replicate 8 (.thread (.client 1) .go)
    ++ .thread (.client 0) (.callUnsubscribe 0) :: List.replicate i (.thread (.client 0) .go)

/-- The receive of client 1 comes back after the broadcast, while client 0 goes on with its
unsubscribe: it returns 1. -/
theorem concurrent_unsubscribe_safe_woken_receive :
    ∃ tr s s₁ e tr' s', (machine 1 1 (by decide)).RunIf ReleasesUnused tr s ∧
      s.pc (.client 0) = .unsubscribe 0 false .broadcast ∧
      s.pc (.client 1) = .receive 0 false (.parked 0) ∧ Safe s ∧
      next s (.thread (.client 0) .go) = some (s₁, e) ∧
      ((machine 1 1 (by decide)).startAt s₁).RunIf ReleasesUnused tr' s' ∧
      .unsubscribed (.client 0) 0 0 ∈ tr' ∧
      tr'.find? (isReceiveReturn (.client 1)) = some (.receiveFailed (.client 1) 0) := by
  obtain ⟨tr, s, s₁, e, tr', s', h, hK, hnext, h', hp⟩ :=
    Machine.runIf_step_of_exec (M := machine 1 1 (by decide)) (K := TwoClients) (C := TwoClients)
      (unsubscribeSchedule 4) (.thread (.client 0) .go)
      (.thread (.client 0) .go :: List.replicate 5 (.thread (.client 1) .go)
        ++ List.replicate 14 (.thread (.client 0) .go))
      (fun _ s _ tr' s' => decide (s.pc (.client 0) = .unsubscribe 0 false .broadcast ∧
        (s.shared.subscription 0).proxy = some 0 ∧ s.faulted (.client 1) = false ∧
        s.pc (.client 1) = .receive 0 false (.parked 0) ∧ s'.faulted (.client 0) = false ∧
        s'.pc (.client 1) = .idle ∧ .unsubscribed (.client 0) 0 0 ∈ tr'))
      (by decide +kernel)
  obtain ⟨hpc, hpointer, hlive, hparked, hstep, hidle, hret⟩ := of_decide_eq_true hp
  have h₀ : ((machine 1 1 (by decide)).startAt (init 1 (by decide))).RunIf TwoClients tr s := h
  have hidle₀ : OthersIdle (n := 1) (init 1 (by decide)) := fun _ _ => rfl
  have hrun : (machine 1 1 (by decide)).RunIf ReleasesUnused tr s :=
    releasesUnused_of_twoClients hidle₀ h₀
  have hrun' := releasesUnused_of_twoClients (othersIdle_of_run hidle₀ (h₀.snoc hK hnext)) h'
  obtain ⟨hsafe, hreturns⟩ := concurrent_unsubscribe_safe hrun
  refine ⟨tr, s, s₁, e, tr', s', hrun, hpc, hparked, hsafe, hnext, hrun', hret, ?_⟩
  rcases hreturns _ _ 0 false 0 s₁ e hpc hpointer hparked hlive hnext (faulted_of_run h' hstep) tr' s'
    hrun' with hfind | ⟨-, p, hway⟩
  · exact hfind
  · rw [hway.pc] at hidle
    cases hidle

/-- The receive of client 1 is still parked when client 0 releases the proxy, although the
broadcast has woken it up. Its next step locks the mutex of the released inbox. -/
theorem unsubscribe_frees_waiting_receive :
    ∃ s s' e, (machine 1 1 (by decide)).RunIf AllocationsSucceed
        [.subscribeCall (.client 0) 1 nameC, .subscribed (.client 0) 0 0 nameC,
          .unsubscribeCall (.client 0) 0] s ∧
      s.pc (.client 1) = .receive 0 false (.parked 0) ∧
      .client 1 ∉ (s.shared.proxy 0).inboxCond ∧ ¬ Safe s ∧
      next s (.thread (.client 1) .go) = some (s', e) ∧ s'.faulted (.client 1) = true := by
  obtain ⟨tr, s, h, hp⟩ := Machine.runIf_of_exec (M := machine 1 1 (by decide))
    (K := AllocationsSucceed) (unsubscribeSchedule 15)
    (fun tr s => decide (tr = [.subscribeCall (.client 0) 1 nameC,
        .subscribed (.client 0) 0 0 nameC, .unsubscribeCall (.client 0) 0] ∧
      s.pc (.client 1) = .receive 0 false (.parked 0) ∧
      .client 1 ∉ (s.shared.proxy 0).inboxCond ∧ s.faulted (.client 1) = false ∧
      (s.shared.proxy 0).released = true ∧
      (next s (.thread (.client 1) .go)).any (fun r => r.1.faulted (.client 1)) = true))
    (by decide +kernel)
  obtain ⟨rfl, hparked, hawake, hlive, hreleased, hany⟩ := of_decide_eq_true hp
  obtain ⟨⟨s', e⟩, hnext, hfaulted⟩ := (Option.any_eq_true _ _).mp hany
  refine ⟨s, s', e, h, hparked, hawake, ?_, hnext, hfaulted⟩
  intro hsafe
  have hlookup := hsafe (.client 1) hlive 0 (by rw [hparked]; exact List.mem_singleton_self 0)
  rw [hreleased] at hlookup
  cases hlookup

end

end Miez.Proofs.MessageBroker
