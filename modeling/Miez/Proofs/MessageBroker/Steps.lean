import Miez.Lib.Threads
import Miez.MessageBroker

/-!
# `Miez.Proofs.MessageBroker.Steps`: what one step of the broker can do

`ThreadStep` lists the steps of a thread inside a broker function when no allocation fails,
one constructor for each kind of step, with the condition under which the step is taken and
the write it does. Steps that only read, and steps that only touch the mutex, the condition
variable or the contents of an inbox, are one kind each. `PoolStep` lists the steps of the
pool. `next_cases` says that a step of the broker is a `PoolStep`, a `ThreadStep`, or the mark
of a fault. The invariants of the broker are proved from these and do not unfold the step
functions again.
-/

set_option autoImplicit false

namespace Miez.Proofs.MessageBroker

open Miez.Lib
open Miez.MessageBroker
open Miez.ThreadPool (Tid)

section
variable {n : Nat}

/-- No allocation of the step fails. -/
def AllocationsSucceed (_ : State n) : Action n → Prop
  | .pool _ .fail => False
  | .thread _ .fail => False
  | .thread _ .failNode => False
  | _ => True

instance (s : State n) (a : Action n) : Decidable (AllocationsSucceed s a) := by
  unfold AllocationsSucceed
  split <;> infer_instance

/-- The program point of the get-or-create is reached only after an allocation has failed. -/
def getChannelFailed : GetChannelPc → Bool
  | .freeUnlock _ | .unlockFree _ | .free _ | .unlockFailed => true
  | _ => false

/-- The program point is reached only after an allocation has failed. -/
def onFailurePath : Pc → Bool
  | .publisherTask _ (.getChannel g) | .subscribe _ _ (.getChannel g) => getChannelFailed g
  | .subscribe _ _ (.unlockFailed _ _) | .subscribe _ _ (.freeProxy _ _) => true
  | _ => false

/-- The two states of a proxy differ at most in its inbox and the inbox's mutex and condition
variable. -/
structure InboxOnly (p p' : SubscriberProxy n) : Prop where
  id : p'.id = p.id
  active : p'.active = p.active
  released : p'.released = p.released
  channel : p'.channel = p.channel

/-- The steps of the get-or-create of a channel. -/
inductive GetChannelStep (t : Tid n) (name : CString) :
    Shared n → GetChannelPc → Shared n → GetChannelResult → Prop where
  | lock {sh} (hfree : sh.channelsMutex = none) :
      GetChannelStep t name sh .lock { sh with channelsMutex := some t } (.more .get)
  | hit {sh ch} (hget : sh.channels.get name = some ch) :
      GetChannelStep t name sh .get sh (.more (.unlock ch))
  | miss {sh} (hget : sh.channels.get name = none) :
      GetChannelStep t name sh .get sh (.more .new)
  | new {sh} :
      GetChannelStep t name sh .new (sh.newChannel name) (.more (.insert sh.nextChannel))
  | insert {sh} (ch : Nat) :
      GetChannelStep t name sh (.insert ch) { sh with channels := sh.channels.insert name ch }
        (.more (.unlock ch))
  | unlock {sh} (ch : Nat) :
      GetChannelStep t name sh (.unlock ch) { sh with channelsMutex := none } (.found ch)

/-- The steps of a thread inside a broker function when no allocation fails. -/
inductive ThreadStep (t : Tid n) : Shared n → Pc → Shared n → Pc → Option (Event n) → Prop where
  -- Calls.
  | callPublish {sh} (c : Nat) (ht : t = .client c) (name content : CString) :
      ThreadStep t sh .idle
        { sh with nextMessageId := sh.nextMessageId + 1, nextPublish := sh.nextPublish + 1 }
        (.publish ⟨sh.nextMessageId, name, content, sh.nextPublish⟩)
        (some (.publishCall c ⟨sh.nextMessageId, name, content, sh.nextPublish⟩))
  | callSubscribe {sh} (c : Nat) (ht : t = .client c) (name : CString) :
      ThreadStep t sh .idle
        { sh with nextSubscriberId := sh.nextSubscriberId + 1,
                  nextSubscribe := sh.nextSubscribe + 1 }
        (.subscribe name sh.nextSubscriberId (.getChannel .lock))
        (some (.subscribeCall t sh.nextSubscriberId name))
  | callUnsubscribe {sh} (c : Nat) (ht : t = .client c) (k : Nat) (thenFree : Bool)
      (hk : k < sh.nextSubscription) :
      ThreadStep t sh .idle sh (.unsubscribe k thenFree .testActive)
        (some (.unsubscribeCall t k))
  | callFree {sh} (c : Nat) (ht : t = .client c) (k : Nat) :
      ThreadStep t sh .idle sh (.free k) none
  | callReceive {sh} (c : Nat) (ht : t = .client c) (k : Nat) (tryReceive : Bool)
      (hk : k < sh.nextSubscription) :
      ThreadStep t sh .idle sh (.receive k tryReceive .testActive) none
  | callPendingCount {sh} (c : Nat) (ht : t = .client c) (k : Nat) :
      ThreadStep t sh .idle sh (.pendingCount k false) none
  -- The task of a publish.
  | taskMore {sh sh' arg g g'} (hg : GetChannelStep t arg.channelName sh g sh' (.more g')) :
      ThreadStep t sh (.publisherTask arg (.getChannel g)) sh'
        (.publisherTask arg (.getChannel g')) none
  | taskFound {sh sh' arg g ch} (hg : GetChannelStep t arg.channelName sh g sh' (.found ch)) :
      ThreadStep t sh (.publisherTask arg (.getChannel g)) sh'
        (.publisherTask arg (.lockChannel ch)) none
  | fanout {sh arg} (ch : Nat) (hfree : (sh.channel ch).mutex = none) :
      ThreadStep t sh (.publisherTask arg (.lockChannel ch))
        (sh.setChannel ch { sh.channel ch with mutex := some t })
        (.publisherTask arg (.begin ch)) (some (.fanout t ch arg))
  | beginEmpty {sh arg} (ch : Nat) (hempty : (sh.channel ch).subscriberProxies = []) :
      ThreadStep t sh (.publisherTask arg (.begin ch)) sh
        (.publisherTask arg (.unlockChannel ch)) none
  | begin {sh arg} (ch : Nat) :
      ThreadStep t sh (.publisherTask arg (.begin ch)) sh (.publisherTask arg (.next ch 0)) none
  | nextEnd {sh arg} (ch i : Nat) (hend : (sh.channel ch).subscriberProxies[i]? = none) :
      ThreadStep t sh (.publisherTask arg (.next ch i)) sh
        (.publisherTask arg (.unlockChannel ch)) none
  | nextActive {sh arg} (ch i x : Nat) (hx : (sh.channel ch).subscriberProxies[i]? = some x) :
      ThreadStep t sh (.publisherTask arg (.next ch i)) sh
        (.publisherTask arg (.testActive ch i x)) none
  | nextInactive {sh arg} (ch i x : Nat) (hx : (sh.channel ch).subscriberProxies[i]? = some x)
      (hactive : (sh.proxy x).active = false) :
      ThreadStep t sh (.publisherTask arg (.next ch i)) sh
        (.publisherTask arg (.next ch (i + 1))) none
  | testActive {sh arg} (ch i x : Nat) :
      ThreadStep t sh (.publisherTask arg (.testActive ch i x)) sh
        (.publisherTask arg (.enqueue ch i x)) none
  | testInactive {sh arg} (ch i x : Nat) (hactive : (sh.proxy x).active = false) :
      ThreadStep t sh (.publisherTask arg (.testActive ch i x)) sh
        (.publisherTask arg (.next ch (i + 1))) none
  | put {sh arg} (ch i x : Nat) :
      ThreadStep t sh (.publisherTask arg (.enqueue ch i x))
        (sh.setProxy x { sh.proxy x with inbox := (sh.proxy x).inbox ++ [arg.message] })
        (.publisherTask arg (.lockInbox ch i x)) (some (.put t x arg.message))
  | taskLockInbox {sh arg} (ch i x : Nat) (hfree : (sh.proxy x).inboxMutex = none) :
      ThreadStep t sh (.publisherTask arg (.lockInbox ch i x))
        (sh.setProxy x { sh.proxy x with inboxMutex := some t })
        (.publisherTask arg (.signal ch i x)) none
  | taskSignal {sh arg} (ch i x : Nat) (waiting : Finset (Tid n)) :
      ThreadStep t sh (.publisherTask arg (.signal ch i x))
        (sh.setProxy x { sh.proxy x with inboxCond := waiting })
        (.publisherTask arg (.unlockInbox ch i x)) none
  | taskUnlockInbox {sh arg} (ch i x : Nat) :
      ThreadStep t sh (.publisherTask arg (.unlockInbox ch i x))
        (sh.setProxy x { sh.proxy x with inboxMutex := none })
        (.publisherTask arg (.next ch (i + 1))) none
  | taskUnlock {sh arg} (ch : Nat) :
      ThreadStep t sh (.publisherTask arg (.unlockChannel ch)) (sh.unlockChannel ch) .idle none
  -- A subscribe.
  | subscribeMore {sh sh' name id g g'} (hg : GetChannelStep t name sh g sh' (.more g')) :
      ThreadStep t sh (.subscribe name id (.getChannel g)) sh'
        (.subscribe name id (.getChannel g')) none
  | subscribeFound {sh sh' name id g ch} (hg : GetChannelStep t name sh g sh' (.found ch)) :
      ThreadStep t sh (.subscribe name id (.getChannel g)) sh'
        (.subscribe name id (.newProxy ch)) none
  | newProxy {sh name id} (ch : Nat) :
      ThreadStep t sh (.subscribe name id (.newProxy ch)) (sh.newProxy id ch)
        (.subscribe name id (.lockChannel ch sh.nextProxy)) none
  | subscribeLock {sh name id} (ch x : Nat) (hfree : (sh.channel ch).mutex = none) :
      ThreadStep t sh (.subscribe name id (.lockChannel ch x))
        (sh.setChannel ch { sh.channel ch with mutex := some t })
        (.subscribe name id (.insertLast ch x)) none
  | insertLast {sh name id} (ch x : Nat) :
      ThreadStep t sh (.subscribe name id (.insertLast ch x))
        (sh.setChannel ch { sh.channel ch with
          subscriberProxies := (sh.channel ch).subscriberProxies ++ [x] })
        (.subscribe name id (.unlockChannel ch x)) none
  | subscribeUnlock {sh name id} (ch x : Nat) :
      ThreadStep t sh (.subscribe name id (.unlockChannel ch x)) (sh.unlockChannel ch)
        (.subscribe name id (.newSubscription x)) none
  | newSubscription {sh name id} (x : Nat) :
      ThreadStep t sh (.subscribe name id (.newSubscription x)) (sh.newSubscription id name x)
        .idle (some (.subscribed t sh.nextSubscription x name))
  -- An unsubscribe.
  | unsubscribeTest {sh k thenFree} (u u' : UnsubscribePc)
      (hu : (u = .testActive ∧ u' = .testProxy) ∨
        (u = .testProxy ∧ (u' = .lockChannels ∨ u' = .deactivate))) :
      ThreadStep t sh (.unsubscribe k thenFree u) sh (.unsubscribe k thenFree u') none
  | unsubscribeInactive {sh k thenFree} {pc' : Pc} {e : Option (Event n)}
      (hret : (pc' = .free k ∧ e = none) ∨ (pc' = .idle ∧ e = some (.unsubscribed t k 1))) :
      ThreadStep t sh (.unsubscribe k thenFree .testActive) sh pc' e
  | deactivate {sh k thenFree} (x : Nat) (hx : (sh.subscription k).proxy = some x) :
      ThreadStep t sh (.unsubscribe k thenFree .deactivate) (sh.deactivate x)
        (.unsubscribe k thenFree .lockInbox) none
  | unsubscribeInbox {sh k thenFree} (x : Nat) (p : SubscriberProxy n) (u u' : UnsubscribePc)
      (hp : InboxOnly (sh.proxy x) p) (hinbox : p.inbox = (sh.proxy x).inbox)
      (hu : (u = .lockInbox ∧ u' = .broadcast) ∨ (u = .broadcast ∧ u' = .unlockInbox) ∨
        (u = .unlockInbox ∧ u' = .lockChannels)) :
      ThreadStep t sh (.unsubscribe k thenFree u) (sh.setProxy x p)
        (.unsubscribe k thenFree u') none
  | unsubscribeLockChannels {sh k thenFree} (hfree : sh.channelsMutex = none) :
      ThreadStep t sh (.unsubscribe k thenFree .lockChannels)
        { sh with channelsMutex := some t } (.unsubscribe k thenFree .get) none
  | unsubscribeHit {sh k thenFree} (ch : Nat)
      (hget : sh.channels.get (sh.subscription k).channelName = some ch) :
      ThreadStep t sh (.unsubscribe k thenFree .get) sh
        (.unsubscribe k thenFree (.lockChannel ch)) none
  | unsubscribeMiss {sh k thenFree}
      (hget : sh.channels.get (sh.subscription k).channelName = none) :
      ThreadStep t sh (.unsubscribe k thenFree .get) sh
        (.unsubscribe k thenFree .unlockChannels) none
  | unsubscribeLockChannel {sh k thenFree} (ch : Nat) (hfree : (sh.channel ch).mutex = none) :
      ThreadStep t sh (.unsubscribe k thenFree (.lockChannel ch))
        (sh.setChannel ch { sh.channel ch with mutex := some t })
        (.unsubscribe k thenFree (.search ch)) none
  | searchMiss {sh k thenFree} (ch : Nat)
      (hmiss : ∀ x ∈ (sh.channel ch).subscriberProxies,
        (sh.proxy x).id ≠ (sh.subscription k).id) :
      ThreadStep t sh (.unsubscribe k thenFree (.search ch)) sh
        (.unsubscribe k thenFree (.unlockChannel ch)) none
  | searchHit {sh k thenFree} (ch i x : Nat)
      (hx : (sh.channel ch).subscriberProxies[i]? = some x)
      (hid : (sh.proxy x).id = (sh.subscription k).id) :
      ThreadStep t sh (.unsubscribe k thenFree (.search ch)) sh
        (.unsubscribe k thenFree (.freeProxy ch i x .deactivate)) none
  | freeDeactivate {sh k thenFree} (ch i x : Nat) :
      ThreadStep t sh (.unsubscribe k thenFree (.freeProxy ch i x .deactivate))
        (sh.deactivate x) (.unsubscribe k thenFree (.freeProxy ch i x .lock)) none
  | freeInbox {sh k thenFree} (ch i x : Nat) (p : SubscriberProxy n) (f f' : ProxyFreePc)
      (hp : InboxOnly (sh.proxy x) p) (hinbox : p.inbox = (sh.proxy x).inbox)
      (hf : (f = .lock ∧ f' = .broadcast) ∨ (f = .broadcast ∧ f' = .unlock) ∨
        (f = .unlock ∧ f' = .release)) :
      ThreadStep t sh (.unsubscribe k thenFree (.freeProxy ch i x f)) (sh.setProxy x p)
        (.unsubscribe k thenFree (.freeProxy ch i x f')) none
  | freeRelease {sh k thenFree} (ch i x : Nat) :
      ThreadStep t sh (.unsubscribe k thenFree (.freeProxy ch i x .release))
        (sh.setProxy x { sh.proxy x with released := true })
        (.unsubscribe k thenFree (.unlink ch i)) none
  | unlink {sh k thenFree} (ch i : Nat) :
      ThreadStep t sh (.unsubscribe k thenFree (.unlink ch i))
        (sh.setChannel ch { sh.channel ch with
          subscriberProxies := (sh.channel ch).subscriberProxies.eraseIdx i })
        (.unsubscribe k thenFree (.unlockChannel ch)) none
  | unsubscribeUnlockChannel {sh k thenFree} (ch : Nat) :
      ThreadStep t sh (.unsubscribe k thenFree (.unlockChannel ch)) (sh.unlockChannel ch)
        (.unsubscribe k thenFree .unlockChannels) none
  | unsubscribeUnlockChannels {sh k thenFree} :
      ThreadStep t sh (.unsubscribe k thenFree .unlockChannels)
        { sh with channelsMutex := none } (.unsubscribe k thenFree .clearActive) none
  | clearActive {sh k thenFree} :
      ThreadStep t sh (.unsubscribe k thenFree .clearActive)
        (sh.setSubscription k { sh.subscription k with active := false })
        (.unsubscribe k thenFree .clearProxy) none
  | clearProxy {sh k thenFree} {pc' : Pc} {e : Option (Event n)}
      (hret : (pc' = .free k ∧ e = none) ∨ (pc' = .idle ∧ e = some (.unsubscribed t k 0))) :
      ThreadStep t sh (.unsubscribe k thenFree .clearProxy)
        (sh.setSubscription k { sh.subscription k with proxy := none }) pc' e
  | release {sh} (k : Nat) :
      ThreadStep t sh (.free k)
        (sh.setSubscription k { sh.subscription k with released := true }) .idle
        (some (.freed t k))
  -- A receive or a count of the inbox.
  | receiveRead {sh k tryReceive r} {pc' : Pc} {e : Option (Event n)}
      (hret : (∃ r', pc' = .receive k tryReceive r' ∧ e = none) ∨
        (pc' = .idle ∧ e = some (.receiveFailed t k))) :
      ThreadStep t sh (.receive k tryReceive r) sh pc' e
  | receiveInbox {sh k tryReceive r} (x : Nat) (p : SubscriberProxy n) {pc' : Pc}
      {e : Option (Event n)} (hp : InboxOnly (sh.proxy x) p)
      (hinbox : p.inbox = (sh.proxy x).inbox)
      (hret : (∃ r', pc' = .receive k tryReceive r' ∧ e = none) ∨
        (pc' = .idle ∧ e = some (.receiveFailed t k))) :
      ThreadStep t sh (.receive k tryReceive r) (sh.setProxy x p) pc' e
  | got {sh k tryReceive} (x : Nat) :
      ThreadStep t sh (.receive k tryReceive (.dequeue x))
        (sh.setProxy x { sh.proxy x with inbox := (sh.proxy x).inbox.dequeue.2 }) .idle
        (some (.got t k x (sh.proxy x).inbox.dequeue.1))
  | pendingRead {sh k b} {pc' : Pc} {e : Option (Event n)}
      (hret : (pc' = .pendingCount k true ∧ e = none) ∨
        (pc' = .idle ∧ ∃ count, e = some (.pending t k count))) :
      ThreadStep t sh (.pendingCount k b) sh pc' e

/-! ### The step functions take these steps -/

/-- A step that follows a pointer to a proxy finds the proxy alive. -/
@[simp] theorem deref_eq_step {sh sh' : Shared n} {x : Nat} {r : Option (Outcome n)} {pc' : Pc}
    {e : Option (Event n)} :
    sh.deref x r = some (.step sh' pc' e) ↔
      (sh.proxy x).released = false ∧ r = some (.step sh' pc' e) := by
  unfold Shared.deref
  cases (sh.proxy x).released <;> simp

/-- A step that follows a pointer to a subscription finds the subscription alive. -/
@[simp] theorem derefSubscription_eq_step {sh sh' : Shared n} {k : Nat}
    {r : Option (Outcome n)} {pc' : Pc} {e : Option (Event n)} :
    sh.derefSubscription k r = some (.step sh' pc' e) ↔
      (sh.subscription k).released = false ∧ r = some (.step sh' pc' e) := by
  unfold Shared.derefSubscription
  cases (sh.subscription k).released <;> simp

/-- A step that follows `self->_proxy` finds a proxy there. -/
@[simp] theorem derefProxy_eq_step {sh sh' : Shared n} {k : Nat}
    {r : Nat → Option (Outcome n)} {pc' : Pc} {e : Option (Event n)} :
    sh.derefProxy k r = some (.step sh' pc' e) ↔
      (sh.subscription k).released = false ∧ ∃ x, (sh.subscription k).proxy = some x ∧
        (sh.proxy x).released = false ∧ r x = some (.step sh' pc' e) := by
  unfold Shared.derefProxy
  cases (sh.subscription k).proxy <;> simp

/-- A mutex is taken when it is free. -/
@[simp] theorem lockMutex_eq_some {t : Tid n} {holder m : Option (Tid n)} :
    lockMutex t holder = some m ↔ holder = none ∧ m = some t := by
  unfold lockMutex
  by_cases h : holder = none <;> simp [h, eq_comm]

/-- A signal changes the parked threads of an inbox only. -/
theorem signalInbox_eq_some {sh sh' : Shared n} {x : Nat} {move : Move n}
    (h : sh.signalInbox x move = some sh') :
    ∃ waiting, sh' = sh.setProxy x { sh.proxy x with inboxCond := waiting } := by
  cases move with
  | go =>
      simp only [Shared.signalInbox, Option.ite_none_right_eq_some, Option.some.injEq] at h
      obtain ⟨-, rfl⟩ := h
      exact ⟨(sh.proxy x).inboxCond, by simp [Shared.setProxy]⟩
  | wake r =>
      simp only [Shared.signalInbox, Option.ite_none_right_eq_some, Option.some.injEq] at h
      obtain ⟨-, rfl⟩ := h
      exact ⟨_, rfl⟩
  | _ => simp [Shared.signalInbox] at h

/-- The get-or-create takes the steps of `GetChannelStep`. -/
theorem getChannel_step {t : Tid n} {name : CString} {freeFirst : Bool} {sh sh' : Shared n}
    {g : GetChannelPc} {move : Move n} {r : GetChannelResult}
    (h : getChannel t name freeFirst sh g move = some (sh', r)) (hfail : move ≠ .fail)
    (hnode : move ≠ .failNode) (hg : getChannelFailed g = false) :
    GetChannelStep t name sh g sh' r := by
  cases move with
  | go =>
      cases g with
      | lock =>
          simp only [getChannel, Shared.lockChannels, Option.map_map, Option.map_eq_some_iff,
            lockMutex_eq_some, Function.comp_apply, Prod.mk.injEq] at h
          obtain ⟨m, ⟨hfree, rfl⟩, rfl, rfl⟩ := h
          exact .lock hfree
      | get =>
          simp only [getChannel, Option.ite_none_left_eq_some, Option.some.injEq,
            Prod.mk.injEq] at h
          obtain ⟨-, rfl, rfl⟩ := h
          cases hget : sh.channels.get name with
          | none => exact .miss hget
          | some ch => exact .hit hget
      | new =>
          simp only [getChannel, Option.some.injEq, Prod.mk.injEq] at h
          obtain ⟨rfl, rfl⟩ := h
          exact .new
      | insert ch =>
          simp only [getChannel, Option.ite_none_left_eq_some, Option.some.injEq,
            Prod.mk.injEq] at h
          obtain ⟨-, rfl, rfl⟩ := h
          exact .insert ch
      | unlock ch =>
          simp only [getChannel, Option.some.injEq, Prod.mk.injEq] at h
          obtain ⟨rfl, rfl⟩ := h
          exact .unlock ch
      | _ => simp [getChannelFailed] at hg
  | fail => exact absurd rfl hfail
  | failNode => exact absurd rfl hnode
  | _ => cases g <;> simp [getChannel] at h

/-- `_publisher_task` takes the steps of `ThreadStep`. -/
theorem publisherTask_step {t : Tid n} {arg : PublisherTaskArg} {sh sh' : Shared n}
    {pc : PublisherTaskPc} {move : Move n} {pc' : Pc} {e : Option (Event n)}
    (h : publisherTask t arg sh pc move = some (.step sh' pc' e)) (hfail : move ≠ .fail)
    (hnode : move ≠ .failNode) (hpc : onFailurePath (.publisherTask arg pc) = false) :
    ThreadStep t sh (.publisherTask arg pc) sh' pc' e := by
  cases pc with
  | getChannel g =>
      simp only [publisherTask, Option.map_eq_some_iff] at h
      obtain ⟨⟨sh₁, r⟩, hg, hr⟩ := h
      have hstep := getChannel_step hg hfail hnode hpc
      cases r with
      | more g' =>
          obtain ⟨rfl, rfl, rfl⟩ : sh₁ = sh' ∧ _ = pc' ∧ none = e := by simpa using hr
          exact .taskMore hstep
      | found ch =>
          obtain ⟨rfl, rfl, rfl⟩ : sh₁ = sh' ∧ _ = pc' ∧ none = e := by simpa using hr
          exact .taskFound hstep
      | failed => cases hstep
      | fault => simp at hr
  | signal ch i x =>
      simp only [publisherTask, deref_eq_step, Option.map_eq_some_iff, Outcome.step.injEq] at h
      obtain ⟨-, sh₁, hsig, rfl, rfl, rfl⟩ := h
      obtain ⟨waiting, rfl⟩ := signalInbox_eq_some hsig
      exact .taskSignal ch i x waiting
  | lockChannel ch =>
      obtain rfl : move = .go := by cases move <;> simp_all [publisherTask]
      simp only [publisherTask, Shared.lockChannel, Option.map_map, Option.map_eq_some_iff,
        lockMutex_eq_some, Function.comp_apply, Outcome.step.injEq] at h
      obtain ⟨m, ⟨hfree, rfl⟩, rfl, rfl, rfl⟩ := h
      exact .fanout ch hfree
  | begin ch =>
      obtain rfl : move = .go := by cases move <;> simp_all [publisherTask]
      simp only [publisherTask, Option.some.injEq, Outcome.step.injEq] at h
      obtain ⟨rfl, rfl, rfl⟩ := h
      by_cases hempty : (sh.channel ch).subscriberProxies.length = 0
      · rw [if_pos hempty]
        exact .beginEmpty ch (List.eq_nil_of_length_eq_zero hempty)
      · rw [if_neg hempty]
        exact .begin ch
  | next ch i =>
      obtain rfl : move = .go := by cases move <;> simp_all [publisherTask]
      cases hx : (sh.channel ch).subscriberProxies[i]? with
      | none =>
          simp only [publisherTask, hx, Option.some.injEq, Outcome.step.injEq] at h
          obtain ⟨rfl, rfl, rfl⟩ := h
          exact .nextEnd ch i hx
      | some x =>
          simp only [publisherTask, hx, deref_eq_step, Option.some.injEq,
            Outcome.step.injEq] at h
          obtain ⟨-, rfl, rfl, rfl⟩ := h
          cases hactive : (sh.proxy x).active with
          | true => exact .nextActive ch i x hx
          | false => exact .nextInactive ch i x hx hactive
  | testActive ch i x =>
      obtain rfl : move = .go := by cases move <;> simp_all [publisherTask]
      simp only [publisherTask, deref_eq_step, Option.some.injEq, Outcome.step.injEq] at h
      obtain ⟨-, rfl, rfl, rfl⟩ := h
      cases hactive : (sh.proxy x).active with
      | true => exact .testActive ch i x
      | false => exact .testInactive ch i x hactive
  | enqueue ch i x =>
      obtain rfl : move = .go := by cases move <;> simp_all [publisherTask]
      simp only [publisherTask, deref_eq_step, Option.some.injEq, Outcome.step.injEq] at h
      obtain ⟨-, rfl, rfl, rfl⟩ := h
      exact .put ch i x
  | lockInbox ch i x =>
      obtain rfl : move = .go := by cases move <;> simp_all [publisherTask]
      simp only [publisherTask, deref_eq_step, Shared.lockInbox, Option.map_map,
        Option.map_eq_some_iff, lockMutex_eq_some, Function.comp_apply, Outcome.step.injEq] at h
      obtain ⟨-, m, ⟨hfree, rfl⟩, rfl, rfl, rfl⟩ := h
      exact .taskLockInbox ch i x hfree
  | unlockInbox ch i x =>
      obtain rfl : move = .go := by cases move <;> simp_all [publisherTask]
      simp only [publisherTask, deref_eq_step, Option.some.injEq, Outcome.step.injEq] at h
      obtain ⟨-, rfl, rfl, rfl⟩ := h
      exact .taskUnlockInbox ch i x
  | unlockChannel ch =>
      obtain rfl : move = .go := by cases move <;> simp_all [publisherTask]
      simp only [publisherTask, Option.some.injEq, Outcome.step.injEq] at h
      obtain ⟨rfl, rfl, rfl⟩ := h
      exact .taskUnlock ch

/-- `message_broker_subscribe` takes the steps of `ThreadStep`. -/
theorem messageBrokerSubscribe_step {t : Tid n} {name : CString} {id : UInt64}
    {sh sh' : Shared n} {pc : SubscribePc} {move : Move n} {pc' : Pc} {e : Option (Event n)}
    (h : messageBrokerSubscribe t name id sh pc move = some (.step sh' pc' e))
    (hfail : move ≠ .fail) (hnode : move ≠ .failNode)
    (hpc : onFailurePath (.subscribe name id pc) = false) :
    ThreadStep t sh (.subscribe name id pc) sh' pc' e := by
  cases pc with
  | getChannel g =>
      simp only [messageBrokerSubscribe, Option.map_eq_some_iff] at h
      obtain ⟨⟨sh₁, r⟩, hg, hr⟩ := h
      have hstep := getChannel_step hg hfail hnode hpc
      cases r with
      | more g' =>
          obtain ⟨rfl, rfl, rfl⟩ : sh₁ = sh' ∧ _ = pc' ∧ none = e := by simpa using hr
          exact .subscribeMore hstep
      | found ch =>
          obtain ⟨rfl, rfl, rfl⟩ : sh₁ = sh' ∧ _ = pc' ∧ none = e := by simpa using hr
          exact .subscribeFound hstep
      | failed => cases hstep
      | fault => simp at hr
  | newProxy ch =>
      obtain rfl : move = .go := by cases move <;> simp_all [messageBrokerSubscribe]
      simp only [messageBrokerSubscribe, Option.some.injEq, Outcome.step.injEq] at h
      obtain ⟨rfl, rfl, rfl⟩ := h
      exact .newProxy ch
  | lockChannel ch x =>
      obtain rfl : move = .go := by cases move <;> simp_all [messageBrokerSubscribe]
      simp only [messageBrokerSubscribe, Shared.lockChannel, Option.map_map,
        Option.map_eq_some_iff, lockMutex_eq_some, Function.comp_apply, Outcome.step.injEq] at h
      obtain ⟨m, ⟨hfree, rfl⟩, rfl, rfl, rfl⟩ := h
      exact .subscribeLock ch x hfree
  | insertLast ch x =>
      obtain rfl : move = .go := by cases move <;> simp_all [messageBrokerSubscribe]
      simp only [messageBrokerSubscribe, Option.some.injEq, Outcome.step.injEq] at h
      obtain ⟨rfl, rfl, rfl⟩ := h
      exact .insertLast ch x
  | unlockChannel ch x =>
      obtain rfl : move = .go := by cases move <;> simp_all [messageBrokerSubscribe]
      simp only [messageBrokerSubscribe, Option.some.injEq, Outcome.step.injEq] at h
      obtain ⟨rfl, rfl, rfl⟩ := h
      exact .subscribeUnlock ch x
  | newSubscription x =>
      obtain rfl : move = .go := by cases move <;> simp_all [messageBrokerSubscribe]
      simp only [messageBrokerSubscribe, Option.some.injEq, Outcome.step.injEq] at h
      obtain ⟨rfl, rfl, rfl⟩ := h
      exact .newSubscription x
  | unlockFailed ch x => simp [onFailurePath] at hpc
  | freeProxy x f => simp [onFailurePath] at hpc

/-- `_subscriber_proxy_free` inside an unsubscribe takes the steps of `ThreadStep`. -/
theorem subscriberProxyFree_step {t : Tid n} {k ch i x : Nat} {thenFree : Bool}
    {sh sh' : Shared n} {f : ProxyFreePc} {pc' : Pc} {e : Option (Event n)}
    (h : subscriptionUnsubscribe t k thenFree sh (.freeProxy ch i x f) .go
      = some (.step sh' pc' e)) :
    ThreadStep t sh (.unsubscribe k thenFree (.freeProxy ch i x f)) sh' pc' e := by
  simp only [subscriptionUnsubscribe, Option.map_eq_some_iff] at h
  obtain ⟨⟨sh₁, r⟩, hf, hr⟩ := h
  cases hrel : (sh.proxy x).released with
  | true =>
      simp only [subscriberProxyFree, hrel, if_true, Option.some.injEq, Prod.mk.injEq] at hf
      obtain ⟨rfl, rfl⟩ := hf
      simp at hr
  | false =>
      cases f with
      | deactivate =>
          simp only [subscriberProxyFree, hrel, Bool.false_eq_true, if_false, Option.some.injEq,
            Prod.mk.injEq] at hf
          obtain ⟨rfl, rfl⟩ := hf
          obtain ⟨rfl, rfl, rfl⟩ : _ = sh' ∧ _ = pc' ∧ none = e := by simpa using hr
          exact .freeDeactivate ch i x
      | lock =>
          simp only [subscriberProxyFree, hrel, Bool.false_eq_true, if_false, Shared.lockInbox,
            Option.map_map, Option.map_eq_some_iff, lockMutex_eq_some, Function.comp_apply,
            Prod.mk.injEq] at hf
          obtain ⟨m, ⟨-, rfl⟩, rfl, rfl⟩ := hf
          obtain ⟨rfl, rfl, rfl⟩ : _ = sh' ∧ _ = pc' ∧ none = e := by simpa using hr
          exact .freeInbox ch i x _ _ _ ⟨rfl, rfl, hrel.symm, rfl⟩ rfl (by simp)
      | broadcast =>
          simp only [subscriberProxyFree, hrel, Bool.false_eq_true, if_false, Option.some.injEq,
            Prod.mk.injEq] at hf
          obtain ⟨rfl, rfl⟩ := hf
          obtain ⟨rfl, rfl, rfl⟩ : _ = sh' ∧ _ = pc' ∧ none = e := by simpa using hr
          exact .freeInbox ch i x _ _ _ ⟨rfl, rfl, rfl, rfl⟩ rfl (by simp)
      | unlock =>
          simp only [subscriberProxyFree, hrel, Bool.false_eq_true, if_false, Option.some.injEq,
            Prod.mk.injEq] at hf
          obtain ⟨rfl, rfl⟩ := hf
          obtain ⟨rfl, rfl, rfl⟩ : _ = sh' ∧ _ = pc' ∧ none = e := by simpa using hr
          exact .freeInbox ch i x _ _ _ ⟨rfl, rfl, rfl, rfl⟩ rfl (by simp)
      | release =>
          simp only [subscriberProxyFree, hrel, Bool.false_eq_true, if_false, Option.some.injEq,
            Prod.mk.injEq] at hf
          obtain ⟨rfl, rfl⟩ := hf
          obtain ⟨rfl, rfl, rfl⟩ : _ = sh' ∧ _ = pc' ∧ none = e := by simpa using hr
          exact .freeRelease ch i x

/-- The return of an unsubscribe. -/
theorem unsubscribeReturn_eq_step {t : Tid n} {k : Nat} {thenFree : Bool} {sh sh' : Shared n}
    {code : Int} {pc' : Pc} {e : Option (Event n)}
    (h : unsubscribeReturn t k thenFree sh code = .step sh' pc' e) :
    sh' = sh ∧ ((pc' = .free k ∧ e = none) ∨
      (pc' = .idle ∧ e = some (.unsubscribed t k code))) := by
  cases thenFree <;> simp_all [unsubscribeReturn]

/-- `subscription_unsubscribe` takes the steps of `ThreadStep`. -/
theorem subscriptionUnsubscribe_step {t : Tid n} {k : Nat} {thenFree : Bool}
    {sh sh' : Shared n} {pc : UnsubscribePc} {move : Move n} {pc' : Pc}
    {e : Option (Event n)}
    (h : subscriptionUnsubscribe t k thenFree sh pc move = some (.step sh' pc' e))
    (hfail : move ≠ .fail) : ThreadStep t sh (.unsubscribe k thenFree pc) sh' pc' e := by
  obtain rfl : move = .go := by
    cases pc <;> cases move <;> simp_all [subscriptionUnsubscribe]
  cases pc with
  | testActive =>
      simp only [subscriptionUnsubscribe, derefSubscription_eq_step, Option.some.injEq] at h
      obtain ⟨-, h⟩ := h
      cases hactive : (sh.subscription k).active with
      | true =>
          simp only [hactive, if_true, Outcome.step.injEq] at h
          obtain ⟨rfl, rfl, rfl⟩ := h
          exact .unsubscribeTest _ _ (by simp)
      | false =>
          simp only [hactive, Bool.false_eq_true, if_false] at h
          obtain ⟨rfl, hret⟩ := unsubscribeReturn_eq_step h
          exact .unsubscribeInactive hret
  | testProxy =>
      simp only [subscriptionUnsubscribe, derefSubscription_eq_step, Option.some.injEq,
        Outcome.step.injEq] at h
      obtain ⟨-, rfl, rfl, rfl⟩ := h
      refine .unsubscribeTest _ _ (Or.inr ⟨rfl, ?_⟩)
      by_cases hproxy : (sh.subscription k).proxy = none <;> simp [hproxy]
  | deactivate =>
      simp only [subscriptionUnsubscribe, derefProxy_eq_step, Option.some.injEq,
        Outcome.step.injEq] at h
      obtain ⟨-, x, hx, -, rfl, rfl, rfl⟩ := h
      exact .deactivate x hx
  | lockInbox =>
      simp only [subscriptionUnsubscribe, derefProxy_eq_step, Shared.lockInbox, Option.map_map,
        Option.map_eq_some_iff, lockMutex_eq_some, Function.comp_apply, Outcome.step.injEq] at h
      obtain ⟨-, x, -, -, m, ⟨-, rfl⟩, rfl, rfl, rfl⟩ := h
      exact .unsubscribeInbox x _ _ _ ⟨rfl, rfl, rfl, rfl⟩ rfl (by simp)
  | broadcast =>
      simp only [subscriptionUnsubscribe, derefProxy_eq_step, Option.some.injEq,
        Outcome.step.injEq] at h
      obtain ⟨-, x, -, -, rfl, rfl, rfl⟩ := h
      exact .unsubscribeInbox x _ _ _ ⟨rfl, rfl, rfl, rfl⟩ rfl (by simp)
  | unlockInbox =>
      simp only [subscriptionUnsubscribe, derefProxy_eq_step, Option.some.injEq,
        Outcome.step.injEq] at h
      obtain ⟨-, x, -, -, rfl, rfl, rfl⟩ := h
      exact .unsubscribeInbox x _ _ _ ⟨rfl, rfl, rfl, rfl⟩ rfl (by simp)
  | lockChannels =>
      simp only [subscriptionUnsubscribe, Shared.lockChannels, Option.map_map,
        Option.map_eq_some_iff, lockMutex_eq_some, Function.comp_apply, Outcome.step.injEq] at h
      obtain ⟨m, ⟨hfree, rfl⟩, rfl, rfl, rfl⟩ := h
      exact .unsubscribeLockChannels hfree
  | get =>
      simp only [subscriptionUnsubscribe, derefSubscription_eq_step,
        Option.ite_none_left_eq_some, Option.some.injEq, Outcome.step.injEq] at h
      obtain ⟨-, -, rfl, rfl, rfl⟩ := h
      cases hget : sh.channels.get (sh.subscription k).channelName with
      | none => exact .unsubscribeMiss hget
      | some ch => exact .unsubscribeHit ch hget
  | lockChannel ch =>
      simp only [subscriptionUnsubscribe, Shared.lockChannel, Option.map_map,
        Option.map_eq_some_iff, lockMutex_eq_some, Function.comp_apply, Outcome.step.injEq] at h
      obtain ⟨m, ⟨hfree, rfl⟩, rfl, rfl, rfl⟩ := h
      exact .unsubscribeLockChannel ch hfree
  | search ch =>
      simp only [subscriptionUnsubscribe, derefSubscription_eq_step] at h
      obtain ⟨-, h⟩ := h
      cases hfind : (sh.channel ch).subscriberProxies.findIdx?
          (fun x => (sh.proxy x).id == (sh.subscription k).id) with
      | none =>
          simp only [hfind, Option.some.injEq, Outcome.step.injEq] at h
          obtain ⟨rfl, rfl, rfl⟩ := h
          refine .searchMiss ch ?_
          intro x hx
          simpa using List.findIdx?_eq_none_iff.mp hfind x hx
      | some i =>
          simp only [hfind, Option.some.injEq, Outcome.step.injEq] at h
          obtain ⟨rfl, rfl, rfl⟩ := h
          obtain ⟨hi, hid, -⟩ := List.findIdx?_eq_some_iff_getElem.mp hfind
          have hx : (sh.channel ch).subscriberProxies[i]?
              = some ((sh.channel ch).subscriberProxies.getD i 0) := by
            simp [List.getD, List.getElem?_eq_getElem hi]
          refine .searchHit ch i _ hx ?_
          rw [List.getElem?_eq_getElem hi, Option.some.injEq] at hx
          rw [← hx]
          simpa using hid
  | freeProxy ch i x f => exact subscriberProxyFree_step h
  | unlink ch i =>
      simp only [subscriptionUnsubscribe, Option.some.injEq, Outcome.step.injEq] at h
      obtain ⟨rfl, rfl, rfl⟩ := h
      exact .unlink ch i
  | unlockChannel ch =>
      simp only [subscriptionUnsubscribe, Option.some.injEq, Outcome.step.injEq] at h
      obtain ⟨rfl, rfl, rfl⟩ := h
      exact .unsubscribeUnlockChannel ch
  | unlockChannels =>
      simp only [subscriptionUnsubscribe, Option.some.injEq, Outcome.step.injEq] at h
      obtain ⟨rfl, rfl, rfl⟩ := h
      exact .unsubscribeUnlockChannels
  | clearActive =>
      simp only [subscriptionUnsubscribe, derefSubscription_eq_step, Option.some.injEq,
        Outcome.step.injEq] at h
      obtain ⟨-, rfl, rfl, rfl⟩ := h
      exact .clearActive
  | clearProxy =>
      simp only [subscriptionUnsubscribe, derefSubscription_eq_step, Option.some.injEq] at h
      obtain ⟨rfl, hret⟩ := unsubscribeReturn_eq_step h.2
      exact .clearProxy hret

/-- `subscription_receive` and `subscription_try_receive` take the steps of `ThreadStep`. -/
theorem subscriptionReceive_step {t : Tid n} {k : Nat} {tryReceive : Bool}
    {sh sh' : Shared n} {pc : ReceivePc} {move : Move n} {pc' : Pc} {e : Option (Event n)}
    (h : subscriptionReceive t k tryReceive sh pc move = some (.step sh' pc' e)) :
    ThreadStep t sh (.receive k tryReceive pc) sh' pc' e := by
  obtain rfl : move = .go := by
    cases pc <;> cases move <;> simp_all [subscriptionReceive]
  -- The steps that end in a failure or go on, without a write.
  have hread : ∀ {b : Prop} [Decidable b] {o o' : Outcome n},
      (∃ r', o = .step sh (.receive k tryReceive r') none) ∨
        o = .step sh .idle (some (.receiveFailed t k)) →
      (∃ r', o' = .step sh (.receive k tryReceive r') none) ∨
        o' = .step sh .idle (some (.receiveFailed t k)) →
      (if b then o else o') = .step sh' pc' e →
      ThreadStep t sh (.receive k tryReceive pc) sh' pc' e := by
    intro b _ o o' ho ho' heq
    have hboth : (∃ r', Outcome.step sh' pc' e = .step sh (.receive k tryReceive r') none) ∨
        Outcome.step sh' pc' e = .step sh .idle (some (.receiveFailed t k)) := by
      rw [← heq]
      by_cases hb : b
      · simpa only [if_pos hb] using ho
      · simpa only [if_neg hb] using ho'
    rcases hboth with ⟨r', hr'⟩ | hr'
    · obtain ⟨rfl, rfl, rfl⟩ := Outcome.step.inj hr'
      exact .receiveRead (Or.inl ⟨r', rfl, rfl⟩)
    · obtain ⟨rfl, rfl, rfl⟩ := Outcome.step.inj hr'
      exact .receiveRead (Or.inr ⟨rfl, rfl⟩)
  cases pc with
  | testActive =>
      simp only [subscriptionReceive, derefSubscription_eq_step, Option.some.injEq] at h
      exact hread (Or.inl ⟨_, rfl⟩) (Or.inr rfl) h.2
  | testProxy =>
      simp only [subscriptionReceive, derefSubscription_eq_step, Option.some.injEq] at h
      exact hread (Or.inr rfl) (Or.inl ⟨_, rfl⟩) h.2
  | testProxyActive =>
      simp only [subscriptionReceive, derefProxy_eq_step, Option.some.injEq] at h
      obtain ⟨-, x, -, -, h⟩ := h
      exact hread (Or.inl ⟨_, rfl⟩) (Or.inr rfl) h
  | load =>
      simp only [subscriptionReceive, derefSubscription_eq_step] at h
      obtain ⟨-, h⟩ := h
      cases hproxy : (sh.subscription k).proxy with
      | none => simp [hproxy] at h
      | some x =>
          simp only [hproxy, Option.some.injEq, Outcome.step.injEq] at h
          obtain ⟨rfl, rfl, rfl⟩ := h
          exact .receiveRead (Or.inl ⟨_, rfl, rfl⟩)
  | lock x =>
      simp only [subscriptionReceive, deref_eq_step, Shared.lockInbox, Option.map_map,
        Option.map_eq_some_iff, lockMutex_eq_some, Function.comp_apply, Outcome.step.injEq] at h
      obtain ⟨-, m, ⟨-, rfl⟩, rfl, rfl, rfl⟩ := h
      exact .receiveInbox x _ ⟨rfl, rfl, rfl, rfl⟩ rfl (Or.inl ⟨_, rfl, rfl⟩)
  | testEmpty x | testActiveLoop x | testActiveExit x =>
      simp only [subscriptionReceive, deref_eq_step, Option.some.injEq, Outcome.step.injEq] at h
      obtain ⟨-, rfl, rfl, rfl⟩ := h
      exact .receiveRead (Or.inl ⟨_, rfl, rfl⟩)
  | condWait x =>
      simp only [subscriptionReceive, deref_eq_step, Option.some.injEq, Outcome.step.injEq] at h
      obtain ⟨-, rfl, rfl, rfl⟩ := h
      exact .receiveInbox x _ ⟨rfl, rfl, rfl, rfl⟩ rfl (Or.inl ⟨_, rfl, rfl⟩)
  | parked x =>
      simp only [subscriptionReceive, deref_eq_step] at h
      obtain ⟨-, h⟩ := h
      by_cases hin : t ∈ (sh.proxy x).inboxCond
      · simp only [if_pos hin, Option.some.injEq, Outcome.step.injEq] at h
        obtain ⟨rfl, rfl, rfl⟩ := h
        exact .receiveInbox x _ ⟨rfl, rfl, rfl, rfl⟩ rfl (Or.inl ⟨_, rfl, rfl⟩)
      · simp only [if_neg hin, Shared.lockInbox, Option.map_map, Option.map_eq_some_iff,
          lockMutex_eq_some, Function.comp_apply, Outcome.step.injEq] at h
        obtain ⟨m, ⟨-, rfl⟩, rfl, rfl, rfl⟩ := h
        exact .receiveInbox x _ ⟨rfl, rfl, rfl, rfl⟩ rfl (Or.inl ⟨_, rfl, rfl⟩)
  | unlockInactive x =>
      simp only [subscriptionReceive, deref_eq_step, Option.some.injEq, Outcome.step.injEq] at h
      obtain ⟨-, rfl, rfl, rfl⟩ := h
      exact .receiveInbox x _ ⟨rfl, rfl, rfl, rfl⟩ rfl (Or.inr ⟨rfl, rfl⟩)
  | unlock x =>
      simp only [subscriptionReceive, deref_eq_step, Option.some.injEq, Outcome.step.injEq] at h
      obtain ⟨-, rfl, rfl, rfl⟩ := h
      exact .receiveInbox x _ ⟨rfl, rfl, rfl, rfl⟩ rfl (Or.inl ⟨_, rfl, rfl⟩)
  | tryEmpty x =>
      simp only [subscriptionReceive, deref_eq_step, Option.some.injEq] at h
      exact hread (Or.inr rfl) (Or.inl ⟨_, rfl⟩) h.2
  | dequeue x =>
      simp only [subscriptionReceive, deref_eq_step, Option.some.injEq, Outcome.step.injEq] at h
      obtain ⟨-, rfl, rfl, rfl⟩ := h
      exact .got x

/-- A call takes the steps of `ThreadStep`. -/
theorem call_step {c : Nat} {sh sh' : Shared n} {move : Move n} {pc' : Pc}
    {e : Option (Event n)} (h : call c sh move = some (.step sh' pc' e)) :
    ThreadStep (.client c) sh .idle sh' pc' e := by
  have husable : ∀ {k}, sh.usable k = true → k < sh.nextSubscription := by
    intro k hk
    simp only [Shared.usable, Bool.and_eq_true, decide_eq_true_eq] at hk
    exact hk.1
  cases move with
  | callPublish name content =>
      simp only [call, Option.some.injEq, Outcome.step.injEq] at h
      obtain ⟨rfl, rfl, rfl⟩ := h
      exact .callPublish c rfl name content
  | callSubscribe name =>
      simp only [call, Option.some.injEq, Outcome.step.injEq] at h
      obtain ⟨rfl, rfl, rfl⟩ := h
      exact .callSubscribe c rfl name
  | callUnsubscribe k =>
      simp only [call, Option.ite_none_right_eq_some, Option.some.injEq, Outcome.step.injEq] at h
      obtain ⟨hk, rfl, rfl, rfl⟩ := h
      exact .callUnsubscribe c rfl k false (husable hk)
  | callFree k =>
      simp only [call, Option.ite_none_right_eq_some, Option.some.injEq] at h
      obtain ⟨hk, h⟩ := h
      cases hactive : (sh.subscription k).active with
      | true =>
          simp only [hactive, if_true, Outcome.step.injEq] at h
          obtain ⟨rfl, rfl, rfl⟩ := h
          exact .callUnsubscribe c rfl k true (husable hk)
      | false =>
          simp only [hactive, Bool.false_eq_true, if_false, Outcome.step.injEq] at h
          obtain ⟨rfl, rfl, rfl⟩ := h
          exact .callFree c rfl k
  | callReceive k tryReceive =>
      simp only [call, Option.ite_none_right_eq_some, Option.some.injEq, Outcome.step.injEq] at h
      obtain ⟨hk, rfl, rfl, rfl⟩ := h
      exact .callReceive c rfl k tryReceive (husable hk)
  | callPendingCount k =>
      simp only [call, Option.ite_none_right_eq_some, Option.some.injEq, Outcome.step.injEq] at h
      obtain ⟨-, rfl, rfl, rfl⟩ := h
      exact .callPendingCount c rfl k
  | _ => simp [call] at h

/-- A thread inside a broker function takes the steps of `ThreadStep`. -/
theorem threadFunction_step {t : Tid n} {sh sh' : Shared n} {pc pc' : Pc} {move : Move n}
    {e : Option (Event n)} (h : threadFunction t sh pc move = some (.step sh' pc' e))
    (hfail : move ≠ .fail) (hnode : move ≠ .failNode) (hpc : onFailurePath pc = false) :
    ThreadStep t sh pc sh' pc' e := by
  cases pc with
  | idle =>
      cases t with
      | client c => exact call_step h
      | dispatcher d => simp [threadFunction] at h
  | publish arg => cases move <;> simp_all [threadFunction]
  | inPool => simp [threadFunction] at h
  | publisherTask arg pc => exact publisherTask_step h hfail hnode hpc
  | subscribe name id pc => exact messageBrokerSubscribe_step h hfail hnode hpc
  | unsubscribe k thenFree pc => exact subscriptionUnsubscribe_step h hfail
  | free k =>
      obtain rfl : move = .go := by cases move <;> simp_all [threadFunction]
      simp only [threadFunction, derefSubscription_eq_step, Option.some.injEq,
        Outcome.step.injEq] at h
      obtain ⟨-, rfl, rfl, rfl⟩ := h
      exact .release k
  | receive k tryReceive pc => exact subscriptionReceive_step h
  | pendingCount k b =>
      obtain rfl : move = .go := by cases move <;> simp_all [threadFunction]
      cases b with
      | false =>
          simp only [threadFunction, subscriptionGetPendingCount, derefSubscription_eq_step,
            Option.some.injEq] at h
          obtain ⟨-, h⟩ := h
          by_cases hproxy : (sh.subscription k).proxy = none
          · simp only [if_pos hproxy, Outcome.step.injEq] at h
            obtain ⟨rfl, rfl, rfl⟩ := h
            exact .pendingRead (Or.inr ⟨rfl, 0, rfl⟩)
          · simp only [if_neg hproxy, Outcome.step.injEq] at h
            obtain ⟨rfl, rfl, rfl⟩ := h
            exact .pendingRead (Or.inl ⟨rfl, rfl⟩)
      | true =>
          simp only [threadFunction, subscriptionGetPendingCount, derefProxy_eq_step,
            Option.some.injEq, Outcome.step.injEq] at h
          obtain ⟨-, x, -, -, rfl, rfl, rfl⟩ := h
          exact .pendingRead (Or.inr ⟨rfl, _, rfl⟩)

/-- A step without a failing allocation stays off the failure paths. -/
theorem ThreadStep.onFailurePath_eq_false {t : Tid n} {sh sh' : Shared n} {pc pc' : Pc}
    {e : Option (Event n)} (h : ThreadStep t sh pc sh' pc' e) : onFailurePath pc' = false := by
  cases h with
  | taskMore hg => cases hg <;> rfl
  | subscribeMore hg => cases hg <;> rfl
  | unsubscribeInactive hret => rcases hret with ⟨rfl, -⟩ | ⟨rfl, -⟩ <;> rfl
  | clearProxy hret => rcases hret with ⟨rfl, -⟩ | ⟨rfl, -⟩ <;> rfl
  | receiveRead hret => rcases hret with ⟨r', rfl, -⟩ | ⟨rfl, -⟩ <;> rfl
  | receiveInbox x p hp hinbox hret => rcases hret with ⟨r', rfl, -⟩ | ⟨rfl, -⟩ <;> rfl
  | pendingRead hret => rcases hret with ⟨rfl, -⟩ | ⟨rfl, -⟩ <;> rfl
  | _ => rfl

/-! ### Steps of the broker -/

/-- The program points between which a step of the pool moves a thread. They hold no mutex of
the broker and no object. -/
def inCall : Pc → Bool
  | .idle | .publish _ | .inPool | .publisherTask _ (.getChannel .lock) => true
  | _ => false

/-- The program points of `inCall`. -/
theorem inCall_cases {pc : Pc} (h : inCall pc = true) :
    pc = .idle ∨ (∃ arg, pc = .publish arg) ∨ pc = .inPool ∨
      ∃ arg, pc = .publisherTask arg (.getChannel .lock) := by
  unfold inCall at h
  split at h <;> simp_all

/-- The action of the pool that an action of the broker stands for. -/
def PoolAction : Action n → ThreadPool.Action n PublisherTaskArg → Prop
  | .dispatcher d, b => b = .dispatcher d
  | .submit c, b => ∃ arg, b = .client c (.callSubmit arg)
  | .wait c, b => b = .client c .callWait
  | .pool c move, b => b = .client c move
  | .thread _ _, _ => False

/-- The steps of the pool: a dispatcher outside `_publisher_task`, or a client that enters the
pool, moves inside it or leaves it. -/
inductive PoolStep (s : State n) : ThreadPool.Action n PublisherTaskArg →
    ThreadPool.State n PublisherTaskArg → Tid n → Pc →
    Option (ThreadPool.Event n PublisherTaskArg) → Prop where
  | dispatcher {d sh pc e} (hidle : s.pc (.dispatcher d) = .idle)
      (hf : ThreadPool.dispatcherFunction d s.pool.shared (s.pool.dispatcher d)
        = some (sh, pc, e)) :
      PoolStep s (.dispatcher d) ⟨sh, Function.update s.pool.dispatcher d pc, s.pool.client⟩
        (.dispatcher d) (dispatcherPc e) e
  | client {c move sh pc e} {pc₀ : Pc}
      (hf : ThreadPool.clientFunction c (fun d => (s.pool.dispatcher d).isExited) s.pool.shared
        (s.pool.client c) move = some (sh, pc, e))
      (hpc : (∃ arg, s.pc (.client c) = .publish arg ∧ move = .callSubmit arg ∧ pc₀ = .inPool) ∨
        (s.pc (.client c) = .idle ∧ move = .callWait ∧ pc₀ = .inPool) ∨
        (s.pc (.client c) = .inPool ∧ pc₀ = if pc = .idle then .idle else .inPool)) :
      PoolStep s (.client c move) ⟨sh, s.pool.dispatcher, Function.update s.pool.client c pc⟩
        (.client c) pc₀ e

/-- A step of the pool is a step of the pool's own machine. -/
theorem PoolStep.next {s : State n} {b : ThreadPool.Action n PublisherTaskArg}
    {pool : ThreadPool.State n PublisherTaskArg} {t : Tid n} {pc : Pc}
    {e : Option (ThreadPool.Event n PublisherTaskArg)} (h : PoolStep s b pool t pc e) :
    ThreadPool.next s.pool b = some (pool, e) := by
  cases h with
  | dispatcher hidle hf => simp [ThreadPool.next, hf]
  | client hf hpc => simp [ThreadPool.next, hf]

/-- A client outside its broker functions enters the pool, moves inside it or leaves it. -/
theorem poolStep_client {s : State n} {c : Nat} {move : ThreadPool.ClientMove n PublisherTaskArg}
    (f : ThreadPool.State n PublisherTaskArg → Pc)
    {pool : ThreadPool.State n PublisherTaskArg}
    {e : Option (ThreadPool.Event n PublisherTaskArg)}
    (h : ThreadPool.next s.pool (.client c move) = some (pool, e))
    (hpc : (∃ arg, s.pc (.client c) = .publish arg ∧ move = .callSubmit arg ∧
          f pool = .inPool) ∨
        (s.pc (.client c) = .idle ∧ move = .callWait ∧ f pool = .inPool) ∨
        (s.pc (.client c) = .inPool ∧
          f pool = if pool.client c = .idle then .idle else .inPool)) :
    PoolStep s (.client c move) pool (.client c) (f pool) e := by
  simp only [ThreadPool.next, Option.map_eq_some_iff, Prod.mk.injEq, Prod.exists] at h
  obtain ⟨sh, pc, e', hf, rfl, rfl⟩ := h
  exact .client hf (by simpa only [Function.update_self] using hpc)

/-- A step of the broker is a step of the pool, a step of a thread inside a broker function,
or the mark of a fault. -/
theorem next_cases {s s' : State n} {a : Action n} {e : Option (Event n)}
    (h : next s a = some (s', e)) :
    (∃ b pool t pc e', PoolAction a b ∧ PoolStep s b pool t pc e' ∧ e = e'.map .pool ∧
      inCall (s.pc t) = true ∧ inCall pc = true ∧
      s' = ⟨pool, s.shared, Function.update s.pc t pc, s.faulted⟩) ∨
    (∃ t move sh pc, a = .thread t move ∧
      threadFunction t s.shared (s.pc t) move = some (.step sh pc e) ∧
      s' = ⟨s.pool, sh, Function.update s.pc t pc, s.faulted⟩) ∨
    (∃ t, e = none ∧ s' = { s with faulted := Function.update s.faulted t true }) := by
  cases a with
  | dispatcher d =>
      simp only [next, Option.ite_none_right_eq_some, Option.map_eq_some_iff,
        Prod.mk.injEq, ThreadPool.next, Prod.exists] at h
      obtain ⟨hidle, pool, e', ⟨sh, pc, e₁, hf, rfl, rfl⟩, rfl, rfl⟩ := h
      refine Or.inl ⟨_, _, _, _, _, rfl, .dispatcher hidle hf, rfl, by rw [hidle]; rfl, ?_, rfl⟩
      unfold dispatcherPc
      split <;> rfl
  | submit c =>
      simp only [next] at h
      split at h
      · rename_i arg hpc
        simp only [Option.map_eq_some_iff, Prod.mk.injEq] at h
        obtain ⟨⟨pool, e'⟩, hpool, rfl, rfl⟩ := h
        have hstep := poolStep_client (fun _ => .inPool) hpool
          (Or.inl ⟨arg, hpc, rfl, rfl⟩)
        exact Or.inl ⟨_, _, _, _, _, ⟨arg, rfl⟩, hstep, rfl, by rw [hpc]; rfl, rfl, rfl⟩
      · cases h
  | wait c =>
      simp only [next, Option.ite_none_right_eq_some, Option.map_eq_some_iff,
        Prod.mk.injEq] at h
      obtain ⟨hidle, ⟨pool, e'⟩, hpool, rfl, rfl⟩ := h
      have hstep := poolStep_client (fun _ => .inPool) hpool
        (Or.inr (Or.inl ⟨hidle, rfl, rfl⟩))
      exact Or.inl ⟨_, _, _, _, _, rfl, hstep, rfl, by rw [hidle]; rfl, rfl, rfl⟩
  | pool c move =>
      simp only [next, Option.ite_none_right_eq_some, Option.map_eq_some_iff,
        Prod.mk.injEq] at h
      obtain ⟨hin, ⟨pool, e'⟩, hpool, rfl, rfl⟩ := h
      have hstep := poolStep_client (fun pool => if pool.client c = .idle then .idle else .inPool)
        hpool (Or.inr (Or.inr ⟨hin, rfl⟩))
      refine Or.inl ⟨_, _, _, _, _, rfl, hstep, rfl, by rw [hin]; rfl, ?_, rfl⟩
      split <;> rfl
  | thread t move =>
      simp only [next, Option.ite_none_left_eq_some, Option.map_eq_some_iff] at h
      obtain ⟨-, o, ho, hs⟩ := h
      cases o with
      | step sh pc e₁ =>
          obtain ⟨rfl, rfl⟩ : _ = s' ∧ e₁ = e := by simpa using hs
          exact Or.inr (Or.inl ⟨t, move, sh, pc, rfl, ho, rfl⟩)
      | fault =>
          obtain ⟨rfl, rfl⟩ : _ = s' ∧ none = e := by simpa using hs
          exact Or.inr (Or.inr ⟨t, rfl, rfl⟩)

/-- In a run without failing allocations, no thread is on a failure path. -/
theorem onFailurePath_of_run {capacity : UInt64} {hcap : capacity ≠ 0} {tr : List (Event n)}
    {s : State n} (h : (machine n capacity hcap).RunIf AllocationsSucceed tr s) :
    ∀ t, onFailurePath (s.pc t) = false := by
  refine h.induction (I := fun _ s => ∀ t, onFailurePath (s.pc t) = false) ?_ ?_
  · intro t
    rfl
  · intro tr s a s' e _ hinv hK hnext
    rcases next_cases hnext with ⟨b, pool, t, pc, e', -, -, -, -, hpc, rfl⟩ |
        ⟨t, move, sh, pc, rfl, hf, rfl⟩ | ⟨t, -, rfl⟩
    · refine forall_update (P := fun _ pc => onFailurePath pc = false) ?_ fun t' _ => hinv t'
      rcases inCall_cases hpc with rfl | ⟨arg, rfl⟩ | rfl | ⟨arg, rfl⟩ <;> rfl
    · have hstep := threadFunction_step hf (by rintro rfl; exact hK) (by rintro rfl; exact hK)
        (hinv t)
      exact forall_update (P := fun _ pc => onFailurePath pc = false)
        hstep.onFailurePath_eq_false fun t' _ => hinv t'
    · exact hinv

/-- The invariant rule of the broker for runs without failing allocations. A step is a step of
the pool, which moves one thread between program points of `inCall`, or a `ThreadStep`. The
marks of faults do not matter to the invariant. -/
theorem invariant_of_run {capacity : UInt64} {hcap : capacity ≠ 0}
    {I : List (Event n) → State n → Prop}
    (hinit : I [] (init capacity hcap))
    (hpool : ∀ tr s b pool t pc e,
      (machine n capacity hcap).RunIf AllocationsSucceed tr s → I tr s →
      PoolStep s b pool t pc e → inCall (s.pc t) = true → inCall pc = true →
      I (tr ++ (e.map Event.pool).toList)
        ⟨pool, s.shared, Function.update s.pc t pc, s.faulted⟩)
    (hthread : ∀ tr s t sh pc e,
      (machine n capacity hcap).RunIf AllocationsSucceed tr s → I tr s →
      ThreadStep t s.shared (s.pc t) sh pc e →
      I (tr ++ e.toList) ⟨s.pool, sh, Function.update s.pc t pc, s.faulted⟩)
    (hfault : ∀ tr s t, I tr s → I tr { s with faulted := Function.update s.faulted t true })
    {tr : List (Event n)} {s : State n}
    (h : (machine n capacity hcap).RunIf AllocationsSucceed tr s) : I tr s := by
  refine h.induction hinit ?_
  intro tr s a s' e hrun hinv hK hnext
  rcases next_cases hnext with ⟨b, pool, t, pc, e', -, hb, rfl, hold, hnew, rfl⟩ |
      ⟨t, move, sh, pc, rfl, hf, rfl⟩ | ⟨t, rfl, rfl⟩
  · exact hpool tr s b pool t pc e' hrun hinv hb hold hnew
  · exact hthread tr s t sh pc e hrun hinv (threadFunction_step hf (by rintro rfl; exact hK)
      (by rintro rfl; exact hK) (onFailurePath_of_run hrun t))
  · rw [Option.toList_none, List.append_nil]
    exact hfault tr s t hinv

end

end Miez.Proofs.MessageBroker
