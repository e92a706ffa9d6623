import Miez.Proofs.MessageBroker.Removal

/-!
# `Miez.Proofs.MessageBroker.OwnProxy`: an unsubscribe removes its own proxy

`subscription_unsubscribe` finds the channel by the name in its subscription and the proxy by the
id, frees the proxy and takes it out of the list of the channel. While no other call unsubscribes
or frees the same subscription, the call goes through its 20 steps (`OwnStep`) whatever the other
threads do: `InCall` is what they leave alone. Each step touches the proxy of its subscription, the
list of that proxy's channel and the subscription, and nothing else (`OwnProxyOnly`). From the
return on the proxy is in no list, so no task puts a message into its inbox, and its id is not
given out again.
-/

set_option autoImplicit false

namespace Miez.Proofs.MessageBroker

open Miez.Lib
open Miez.MessageBroker
open Miez.ThreadPool (Tid)

section
variable {n : Nat} {capacity : UInt64} {hcap : capacity ≠ 0}

/-! ### The steps of the call -/

/-- The number of steps that an unsubscribe has still to take. -/
def stepsLeft : UnsubscribePc → Nat
  | .testActive => 20
  | .testProxy => 19
  | .deactivate => 18
  | .lockInbox => 17
  | .broadcast => 16
  | .unlockInbox => 15
  | .lockChannels => 14
  | .get => 13
  | .lockChannel _ => 12
  | .search _ => 11
  | .freeProxy _ _ _ .deactivate => 10
  | .freeProxy _ _ _ .lock => 9
  | .freeProxy _ _ _ .broadcast => 8
  | .freeProxy _ _ _ .unlock => 7
  | .freeProxy _ _ _ .release => 6
  | .unlink _ _ => 5
  | .unlockChannel _ => 4
  | .unlockChannels => 3
  | .clearActive => 2
  | .clearProxy => 1

/-- The steps of an unsubscribe of the subscription `k` with the proxy `x` that is not disturbed.
The last step is the return. -/
inductive OwnStep (t : Tid n) (k x : Nat) (sh : Shared n) :
    UnsubscribePc → Shared n → Option UnsubscribePc → Prop where
  | testActive : OwnStep t k x sh .testActive sh (some .testProxy)
  | testProxy : OwnStep t k x sh .testProxy sh (some .deactivate)
  | deactivate : OwnStep t k x sh .deactivate (sh.deactivate x) (some .lockInbox)
  | lockInbox (hfree : (sh.proxy x).inboxMutex = none) :
      OwnStep t k x sh .lockInbox (sh.setProxy x { sh.proxy x with inboxMutex := some t })
        (some .broadcast)
  | broadcast : OwnStep t k x sh .broadcast (sh.broadcastInbox x) (some .unlockInbox)
  | unlockInbox : OwnStep t k x sh .unlockInbox (sh.unlockInbox x) (some .lockChannels)
  | lockChannels (hfree : sh.channelsMutex = none) :
      OwnStep t k x sh .lockChannels { sh with channelsMutex := some t } (some .get)
  | get (ch : Nat) (hch : (sh.proxy x).channel = ch) :
      OwnStep t k x sh .get sh (some (.lockChannel ch))
  | lockChannel (ch : Nat) (hfree : (sh.channel ch).mutex = none) :
      OwnStep t k x sh (.lockChannel ch)
        (sh.setChannel ch { sh.channel ch with mutex := some t }) (some (.search ch))
  | search (ch i : Nat) (hx : (sh.channel ch).subscriberProxies[i]? = some x) :
      OwnStep t k x sh (.search ch) sh (some (.freeProxy ch i x .deactivate))
  | freeDeactivate (ch i : Nat) :
      OwnStep t k x sh (.freeProxy ch i x .deactivate) (sh.deactivate x)
        (some (.freeProxy ch i x .lock))
  | freeLock (ch i : Nat) (hfree : (sh.proxy x).inboxMutex = none) :
      OwnStep t k x sh (.freeProxy ch i x .lock)
        (sh.setProxy x { sh.proxy x with inboxMutex := some t })
        (some (.freeProxy ch i x .broadcast))
  | freeBroadcast (ch i : Nat) :
      OwnStep t k x sh (.freeProxy ch i x .broadcast) (sh.broadcastInbox x)
        (some (.freeProxy ch i x .unlock))
  | freeUnlock (ch i : Nat) :
      OwnStep t k x sh (.freeProxy ch i x .unlock) (sh.unlockInbox x)
        (some (.freeProxy ch i x .release))
  | freeRelease (ch i : Nat) :
      OwnStep t k x sh (.freeProxy ch i x .release)
        (sh.setProxy x { sh.proxy x with released := true }) (some (.unlink ch i))
  | unlink (ch i : Nat) (hx : (sh.channel ch).subscriberProxies[i]? = some x) :
      OwnStep t k x sh (.unlink ch i)
        (sh.setChannel ch { sh.channel ch with
          subscriberProxies := (sh.channel ch).subscriberProxies.eraseIdx i })
        (some (.unlockChannel ch))
  | unlockChannel (ch : Nat) :
      OwnStep t k x sh (.unlockChannel ch) (sh.unlockChannel ch) (some .unlockChannels)
  | unlockChannels : OwnStep t k x sh .unlockChannels sh.unlockChannels (some .clearActive)
  | clearActive :
      OwnStep t k x sh .clearActive
        (sh.setSubscription k { sh.subscription k with active := false }) (some .clearProxy)
  | clearProxy :
      OwnStep t k x sh .clearProxy
        (sh.setSubscription k { sh.subscription k with proxy := none }) none

/-- What a step of an unsubscribe may change: the proxy of its subscription, the channel of that
proxy, from whose list only this proxy may go, and the subscription. -/
structure OwnProxyOnly (k x : Nat) (sh sh' : Shared n) : Prop where
  table : sh'.channels = sh.channels
  channel : ∀ ch, ch ≠ (sh.proxy x).channel → sh'.channel ch = sh.channel ch
  channelName : (sh'.channel (sh.proxy x).channel).channelName =
    (sh.channel (sh.proxy x).channel).channelName
  list : (sh'.channel (sh.proxy x).channel).subscriberProxies =
      (sh.channel (sh.proxy x).channel).subscriberProxies ∨
    (sh'.channel (sh.proxy x).channel).subscriberProxies =
      (sh.channel (sh.proxy x).channel).subscriberProxies.erase x
  proxy : ∀ y, y ≠ x → sh'.proxy y = sh.proxy y
  home : (sh'.proxy x).channel = (sh.proxy x).channel
  subscription : ∀ k', k' ≠ k → sh'.subscription k' = sh.subscription k'

section
variable {t : Tid n} {k x : Nat} {sh sh' : Shared n} {u u' : UnsubscribePc}
  {r : Option UnsubscribePc}

/-- A step brings the call one step closer to its end. -/
theorem OwnStep.stepsLeft (h : OwnStep t k x sh u sh' (some u')) :
    stepsLeft u = stepsLeft u' + 1 := by
  cases h <;> rfl

/-- No change. -/
theorem OwnProxyOnly.refl (sh : Shared n) : OwnProxyOnly k x sh sh :=
  ⟨rfl, fun _ _ => rfl, rfl, Or.inl rfl, fun _ _ => rfl, rfl, fun _ _ => rfl⟩

/-- A write to the proxy. -/
theorem OwnProxyOnly.setProxy (sh : Shared n) {p : SubscriberProxy n}
    (hp : p.channel = (sh.proxy x).channel) : OwnProxyOnly k x sh (sh.setProxy x p) := by
  refine ⟨rfl, fun _ _ => rfl, rfl, Or.inl rfl, fun _ hy => Function.update_of_ne hy _ _, ?_,
    fun _ _ => rfl⟩
  rw [setProxy_proxy, if_pos rfl, hp]

/-- A write to the subscription. -/
theorem OwnProxyOnly.setSubscription (sh : Shared n) (sub : Subscription) :
    OwnProxyOnly k x sh (sh.setSubscription k sub) :=
  ⟨rfl, fun _ _ => rfl, rfl, Or.inl rfl, fun _ _ => rfl, rfl,
    fun _ hk => Function.update_of_ne hk _ _⟩

/-- A write to the channel of the proxy. -/
theorem OwnProxyOnly.setChannel {ch : Nat} {c : Channel n} (hch : (sh.proxy x).channel = ch)
    (hname : c.channelName = (sh.channel ch).channelName)
    (hlist : c.subscriberProxies = (sh.channel ch).subscriberProxies ∨
      c.subscriberProxies = (sh.channel ch).subscriberProxies.erase x) :
    OwnProxyOnly k x sh (sh.setChannel ch c) := by
  subst hch
  refine ⟨rfl, fun _ hne => Function.update_of_ne hne _ _, ?_, ?_, fun _ _ => rfl, rfl,
    fun _ _ => rfl⟩
  · rw [setChannel_channel, if_pos rfl]
    exact hname
  · rw [setChannel_channel, if_pos rfl]
    exact hlist

/-- Two changes, one after the other. The proxy is in the list at most once. -/
theorem OwnProxyOnly.trans {sh'' : Shared n} (h : OwnProxyOnly k x sh sh')
    (h' : OwnProxyOnly k x sh' sh'')
    (hnodup : (sh.channel (sh.proxy x).channel).subscriberProxies.Nodup) :
    OwnProxyOnly k x sh sh'' := by
  have hchannel := h'.channel
  have hname := h'.channelName
  have hlist := h'.list
  rw [h.home] at hchannel hname hlist
  refine ⟨h'.table.trans h.table, fun ch hne => (hchannel ch hne).trans (h.channel ch hne),
    hname.trans h.channelName, ?_, fun y hy => (h'.proxy y hy).trans (h.proxy y hy),
    h'.home.trans h.home, fun k' hk => (h'.subscription k' hk).trans (h.subscription k' hk)⟩
  rcases h.list with hfirst | hfirst <;> rw [hfirst] at hlist
  · exact hlist
  · rcases hlist with hsecond | hsecond
    · exact Or.inr hsecond
    · refine Or.inr (hsecond.trans ?_)
      exact List.erase_of_not_mem hnodup.not_mem_erase

/-- The steps of an unsubscribe touch what belongs to its subscription only. -/
theorem OwnStep.ownProxyOnly (h : OwnStep t k x sh u sh' r)
    (hch : ∀ ch, unsubscribeChannel (.unsubscribe k false u) = some ch →
      (sh.proxy x).channel = ch)
    (hnodup : ∀ ch, (sh.channel ch).subscriberProxies.Nodup) : OwnProxyOnly k x sh sh' := by
  cases h with
  | testActive | testProxy | get | search => exact .refl sh
  | deactivate | lockInbox | broadcast | unlockInbox | freeDeactivate | freeLock | freeBroadcast
  | freeUnlock | freeRelease => exact .setProxy sh rfl
  | lockChannels | unlockChannels =>
      exact ⟨rfl, fun _ _ => rfl, rfl, Or.inl rfl, fun _ _ => rfl, rfl, fun _ _ => rfl⟩
  | lockChannel ch | unlockChannel ch => exact .setChannel (hch ch rfl) rfl (Or.inl rfl)
  | unlink ch i hx =>
      refine .setChannel (hch ch rfl) rfl (Or.inr ?_)
      obtain ⟨hlt, rfl⟩ := List.getElem?_eq_some_iff.mp hx
      exact ((hnodup ch).erase_getElem i hlt).symm
  | clearActive | clearProxy => exact .setSubscription sh _

end

/-! ### The call in progress -/

/-- The program point after a step of the call. -/
def pcAfter (k : Nat) : Option UnsubscribePc → Pc
  | some u => .unsubscribe k false u
  | none => .idle

/-- What a step of the call shows: its return. -/
def eventAfter (t : Tid n) (k : Nat) : Option UnsubscribePc → Option (Event n)
  | some _ => none
  | none => some (.unsubscribed t k 0)

/-- The thread `t` is inside the only unsubscribe of the subscription `k`, which has the
proxy `x`. -/
structure InCall (tr : List (Event n)) (s : State n) (t : Tid n) (k x : Nat)
    (u : UnsubscribePc) : Prop where
  pc : s.pc t = .unsubscribe k false u
  faulted : s.faulted t = false
  owned : Owned tr k x
  alone : ∀ t', t' ≠ t → unsubscribing (s.pc t') ≠ some k ∧ s.pc t' ≠ .free k
  usable : (s.shared.subscription k).released = false
  active : u = .testActive → (s.shared.subscription k).active = true
  pointer : (s.shared.subscription k).proxy = some x
  live : 6 ≤ stepsLeft u → (s.shared.proxy x).released = false
  listed : 5 ≤ stepsLeft u →
    x ∈ (s.shared.channel (s.shared.proxy x).channel).subscriberProxies

section
variable {tr : List (Event n)} {s : State n} {t : Tid n} {k x : Nat} {u : UnsubscribePc}

/-- The proxy that the call frees, or takes out of the list, is the proxy of its subscription. -/
theorem InCall.target (h : InCall tr s t k x u) (hinv : BrokerInv tr s) {ch i : Nat}
    (htarget : targetOf (s.pc t) = some (k, ch, i)) :
    (s.shared.channel ch).subscriberProxies[i]? = some x ∧
      ∀ y, freedProxy (s.pc t) = some y → y = x := by
  obtain ⟨y, hy, -, hfreed⟩ := hinv.target.target t k ch i htarget
  obtain ⟨howned, -⟩ := owned_of_target hinv htarget hy
  obtain rfl : y = x := (hinv.owner.unique k k y x howned h.owned).mp rfl
  exact ⟨hy, hfreed⟩

/-- The channel that the call works on is the channel of the proxy. -/
theorem InCall.channel (h : InCall tr s t k x u) (hl : ListedInv tr s) (ch : Nat)
    (hch : unsubscribeChannel (.unsubscribe k false u) = some ch) :
    (s.shared.proxy x).channel = ch :=
  hl.search t k ch x (by rw [h.pc]; rfl) (by rw [h.pc]; exact hch) h.owned

/-- The search finds the proxy of the subscription, since ids are unique. -/
theorem InCall.search {ch : Nat} (h : InCall tr s t k x (.search ch)) (hinv : BrokerInv tr s)
    (hl : ListedInv tr s) :
    ∃ i, (s.shared.channel ch).subscriberProxies.findIdx?
        (fun y => (s.shared.proxy y).id == (s.shared.subscription k).id) = some i ∧
      (s.shared.channel ch).subscriberProxies[i]? = some x := by
  obtain ⟨t₁, name, hmem⟩ := h.owned
  obtain ⟨-, hx, hid, -⟩ := hinv.owner.owned t₁ k x name hmem
  have hlisted := h.listed (show 5 ≤ 11 by omega)
  rw [h.channel hl ch rfl] at hlisted
  cases hfind : (s.shared.channel ch).subscriberProxies.findIdx?
      (fun y => (s.shared.proxy y).id == (s.shared.subscription k).id) with
  | none =>
      have hmiss := List.findIdx?_eq_none_iff.mp hfind x hlisted
      simp [hid] at hmiss
  | some i =>
      refine ⟨i, rfl, ?_⟩
      obtain ⟨hlt, hy, -⟩ := List.findIdx?_eq_some_iff_getElem.mp hfind
      have hmem := List.getElem_mem hlt
      rw [List.getElem?_eq_getElem hlt, Option.some_inj]
      refine hinv.id.unique _ x (hinv.list.bound ch _ hmem) hx ?_
      rw [← hid]
      simpa using hy

/-- A step of the call is the next one of the list. It follows no pointer to a freed object. -/
theorem InCall.ownStep (h : InCall tr s t k x u) (hinv : BrokerInv tr s) (hl : ListedInv tr s)
    {move : Move n} (hmove : move ≠ .fail) {o : Outcome n}
    (hf : threadFunction t s.shared (.unsubscribe k false u) move = some o) :
    ∃ sh r, OwnStep t k x s.shared u sh r ∧ o = .step sh (pcAfter k r) (eventAfter t k r) := by
  have husable := h.usable
  have hpointer := h.pointer
  have hlive := h.live
  have htarget : ∀ ch i, targetOf (s.pc t) = some (k, ch, i) →
      (s.shared.channel ch).subscriberProxies[i]? = some x ∧
        ∀ y, freedProxy (s.pc t) = some y → y = x :=
    fun ch i => h.target hinv
  rw [h.pc] at htarget
  have hderef : ∀ r : Nat → Option (Outcome n), 6 ≤ Miez.Proofs.MessageBroker.stepsLeft u →
      s.shared.derefProxy k r = r x := by
    intro r hu
    simp [Shared.derefProxy, Shared.derefSubscription, Shared.deref, husable, hpointer, hlive hu]
  have hderefSub : ∀ r : Option (Outcome n), s.shared.derefSubscription k r = r := by
    intro r
    simp [Shared.derefSubscription, husable]
  obtain rfl : move = .go := by
    cases u <;> cases move <;> first | rfl | exact absurd rfl hmove | cases hf
  cases u with
  | testActive =>
      simp only [threadFunction, subscriptionUnsubscribe, hderefSub, h.active rfl] at hf
      obtain rfl := Option.some.inj hf
      exact ⟨_, _, .testActive, rfl⟩
  | testProxy =>
      simp only [threadFunction, subscriptionUnsubscribe, hderefSub, hpointer] at hf
      obtain rfl := Option.some.inj hf
      exact ⟨_, _, .testProxy, rfl⟩
  | deactivate =>
      simp only [threadFunction, subscriptionUnsubscribe, hderef _ (by decide)] at hf
      obtain rfl := Option.some.inj hf
      exact ⟨_, _, .deactivate, rfl⟩
  | lockInbox =>
      simp only [threadFunction, subscriptionUnsubscribe, hderef _ (by decide), Shared.lockInbox,
        Option.map_map, Option.map_eq_some_iff, lockMutex_eq_some] at hf
      obtain ⟨m, ⟨hfree, rfl⟩, rfl⟩ := hf
      exact ⟨_, _, .lockInbox hfree, rfl⟩
  | broadcast =>
      simp only [threadFunction, subscriptionUnsubscribe, hderef _ (by decide)] at hf
      obtain rfl := Option.some.inj hf
      exact ⟨_, _, .broadcast, rfl⟩
  | unlockInbox =>
      simp only [threadFunction, subscriptionUnsubscribe, hderef _ (by decide)] at hf
      obtain rfl := Option.some.inj hf
      exact ⟨_, _, .unlockInbox, rfl⟩
  | lockChannels =>
      simp only [threadFunction, subscriptionUnsubscribe, Shared.lockChannels, Option.map_map,
        Option.map_eq_some_iff, lockMutex_eq_some] at hf
      obtain ⟨m, ⟨hfree, rfl⟩, rfl⟩ := hf
      exact ⟨_, _, .lockChannels hfree, rfl⟩
  | get =>
      obtain ⟨t₁, name, hmem⟩ := h.owned
      have hget := (hinv.owner.owned t₁ k x name hmem).2.2.2
      rw [← hl.name t₁ k x name hmem] at hget
      simp only [threadFunction, subscriptionUnsubscribe, hderefSub, hget] at hf
      split at hf
      · cases hf
      · obtain rfl := Option.some.inj hf
        exact ⟨_, _, .get _ rfl, rfl⟩
  | lockChannel ch =>
      simp only [threadFunction, subscriptionUnsubscribe, Shared.lockChannel, Option.map_map,
        Option.map_eq_some_iff, lockMutex_eq_some] at hf
      obtain ⟨m, ⟨hfree, rfl⟩, rfl⟩ := hf
      exact ⟨_, _, .lockChannel ch hfree, rfl⟩
  | search ch =>
      obtain ⟨i, hfind, hx⟩ := h.search hinv hl
      simp only [threadFunction, subscriptionUnsubscribe, hderefSub, hfind] at hf
      obtain rfl := Option.some.inj hf
      have hgetD : (s.shared.channel ch).subscriberProxies.getD i 0 = x := by
        rw [List.getD_eq_getElem?_getD, hx]
        rfl
      simp only [hgetD]
      exact ⟨_, _, .search ch i hx, rfl⟩
  | freeProxy ch i y f =>
      obtain rfl := (htarget ch i rfl).2 y rfl
      have hreleased : (s.shared.proxy y).released = false := by
        refine hlive ?_
        cases f <;> simp [stepsLeft]
      simp only [threadFunction, subscriptionUnsubscribe, subscriberProxyFree, hreleased,
        Option.map_eq_some_iff] at hf
      obtain ⟨⟨sh, r⟩, hfree, ho⟩ := hf
      cases f with
      | lock =>
          simp only [Shared.lockInbox, Option.map_map, Option.map_eq_some_iff,
            lockMutex_eq_some, Bool.false_eq_true, if_false] at hfree
          obtain ⟨m, ⟨hfree, rfl⟩, heq⟩ := hfree
          obtain ⟨rfl, rfl⟩ := Prod.mk.inj heq
          exact ⟨_, _, .freeLock ch i hfree, ho.symm⟩
      | deactivate =>
          obtain ⟨rfl, rfl⟩ := Prod.mk.inj (Option.some.inj hfree)
          exact ⟨_, _, .freeDeactivate ch i, ho.symm⟩
      | broadcast =>
          obtain ⟨rfl, rfl⟩ := Prod.mk.inj (Option.some.inj hfree)
          exact ⟨_, _, .freeBroadcast ch i, ho.symm⟩
      | unlock =>
          obtain ⟨rfl, rfl⟩ := Prod.mk.inj (Option.some.inj hfree)
          exact ⟨_, _, .freeUnlock ch i, ho.symm⟩
      | release =>
          obtain ⟨rfl, rfl⟩ := Prod.mk.inj (Option.some.inj hfree)
          exact ⟨_, _, .freeRelease ch i, ho.symm⟩
  | unlink ch i =>
      obtain rfl := Option.some.inj hf
      exact ⟨_, _, .unlink ch i (htarget ch i rfl).1, rfl⟩
  | unlockChannel ch =>
      obtain rfl := Option.some.inj hf
      exact ⟨_, _, .unlockChannel ch, rfl⟩
  | unlockChannels =>
      obtain rfl := Option.some.inj hf
      exact ⟨_, _, .unlockChannels, rfl⟩
  | clearActive =>
      simp only [threadFunction, subscriptionUnsubscribe, hderefSub] at hf
      obtain rfl := Option.some.inj hf
      exact ⟨_, _, .clearActive, rfl⟩
  | clearProxy =>
      simp only [threadFunction, subscriptionUnsubscribe, hderefSub] at hf
      obtain rfl := Option.some.inj hf
      exact ⟨_, _, .clearProxy, rfl⟩

end

/-! ### The call goes on -/

/-- No bucket of the channel table stays locked when no allocation fails. -/
theorem unlocked_of_run {tr : List (Event n)} {s : State n}
    (h : (machine n capacity hcap).RunIf AllocationsSucceed tr s) :
    ∀ i, s.shared.channels.locked i = false := by
  refine invariant_of_run (I := fun _ s => ∀ i, s.shared.channels.locked i = false)
    (fun _ => rfl) (fun _ _ _ _ _ _ _ _ hinv _ _ _ => hinv) ?_ (fun _ _ _ hinv => hinv) h
  intro tr s t sh pc e _ hinv hstep i
  show sh.channels.locked i = false
  rcases hstep.table with hsame | ⟨name, ch, -, hinsert⟩
  · rw [hsame]
    exact hinv i
  · rw [hinsert]
    exact hinv i

/-- The thread that holds a mutex of the broker. -/
abbrev mutexHolder (s : State n) (m : Locks.Mutex n) : Option (Tid n) :=
  Locks.holder ⟨s, fun _ => none, fun _ => .out⟩ m

section
variable {tr : List (Event n)} {s : State n} {t : Tid n} {k x : Nat} {u u' : UnsubscribePc}
  {sh : Shared n}

/-- The mutexes that an unsubscribe of a subscription with the proxy `x` locks. -/
def OwnMutex (sh : Shared n) (x : Nat) (m : Locks.Mutex n) : Prop :=
  m = .channels ∨ m = .channel (sh.proxy x).channel ∨ m = .inbox x

/-- The call can take its next step, or it waits for a mutex that another thread holds. -/
theorem InCall.progress (h : InCall tr s t k x u) (hinv : BrokerInv tr s) (hl : ListedInv tr s)
    (hbuckets : ∀ i, s.shared.channels.locked i = false) (hinbox : InboxMutexInv s) :
    (∃ o, threadFunction t s.shared (.unsubscribe k false u) .go = some o) ∨
    ∃ m t', t' ≠ t ∧ OwnMutex s.shared x m ∧ Locks.lockOf s t = some m ∧
      mutexHolder s m = some t' := by
  have hlocked : ∀ m, OwnMutex s.shared x m → Locks.lockOf s t = some m →
      mutexHolder s m ≠ some t → mutexHolder s m = none ∨
        ∃ m t', t' ≠ t ∧ OwnMutex s.shared x m ∧ Locks.lockOf s t = some m ∧
          mutexHolder s m = some t' := by
    intro m hown hlock hme
    cases hholder : mutexHolder s m with
    | none => exact Or.inl rfl
    | some t' =>
        exact Or.inr ⟨m, t', fun heq => hme (by rw [hholder, heq]), hown, hlock, hholder⟩
  have hderef : ∀ r : Nat → Option (Outcome n), 6 ≤ stepsLeft u →
      s.shared.derefProxy k r = r x := by
    intro r hu
    simp [Shared.derefProxy, Shared.derefSubscription, Shared.deref, h.usable, h.pointer,
      h.live hu]
  have hderefSub : ∀ r : Option (Outcome n), s.shared.derefSubscription k r = r := by
    intro r
    simp [Shared.derefSubscription, h.usable]
  have hpc := h.pc
  cases u with
  | lockInbox =>
      have hlock : Locks.lockOf s t = some (.inbox x) := by simp [Locks.lockOf, hpc, h.pointer]
      have hout : (s.shared.proxy x).inboxMutex ≠ some t := by
        intro hme
        have hin := hinbox x t hme
        rw [hpc] at hin
        exact hin
      rcases hlocked _ (Or.inr (Or.inr rfl)) hlock hout with hfree | hwait
      · have hfree : (s.shared.proxy x).inboxMutex = none := hfree
        left
        simp only [threadFunction, subscriptionUnsubscribe, hderef _ (show 6 ≤ 17 by omega),
          Shared.lockInbox, lockMutex, hfree, if_true, Option.map_some]
        exact ⟨_, rfl⟩
      · exact Or.inr hwait
  | lockChannels =>
      have hlock : Locks.lockOf s t = some .channels := by simp [Locks.lockOf, hpc]
      have hout : s.shared.channelsMutex ≠ some t := by
        intro hme
        have hin : holdsChannels (s.pc t) := (hinv.channelsLock t).mpr hme
        rw [hpc] at hin
        exact hin
      rcases hlocked _ (Or.inl rfl) hlock hout with hfree | hwait
      · have hfree : s.shared.channelsMutex = none := hfree
        left
        simp only [threadFunction, subscriptionUnsubscribe, Shared.lockChannels, lockMutex, hfree,
          if_true, Option.map_some]
        exact ⟨_, rfl⟩
      · exact Or.inr hwait
  | lockChannel ch =>
      have hlock : Locks.lockOf s t = some (.channel ch) := by simp [Locks.lockOf, hpc]
      have hout : (s.shared.channel ch).mutex ≠ some t := by
        intro hme
        have hin : channelHeld (s.pc t) = some ch := (hinv.channelLock ch t).mpr hme
        rw [hpc] at hin
        cases hin
      rcases hlocked _ (Or.inr (Or.inl (by rw [h.channel hl ch rfl]))) hlock hout with hfree | hwait
      · have hfree : (s.shared.channel ch).mutex = none := hfree
        left
        simp only [threadFunction, subscriptionUnsubscribe, Shared.lockChannel, lockMutex, hfree,
          if_true, Option.map_some]
        exact ⟨_, rfl⟩
      · exact Or.inr hwait
  | freeProxy ch i y f =>
      have htarget : targetOf (s.pc t) = some (k, ch, i) := by rw [hpc]; rfl
      obtain rfl := (h.target hinv htarget).2 y (by rw [hpc]; rfl)
      have hlive : (s.shared.proxy y).released = false := by
        refine h.live ?_
        cases f <;> simp [stepsLeft]
      cases f with
      | lock =>
          have hlock : Locks.lockOf s t = some (.inbox y) := by simp [Locks.lockOf, hpc]
          have hout : (s.shared.proxy y).inboxMutex ≠ some t := by
            intro hme
            have hin := hinbox y t hme
            rw [hpc] at hin
            exact hin
          rcases hlocked _ (Or.inr (Or.inr rfl)) hlock hout with hfree | hwait
          · have hfree : (s.shared.proxy y).inboxMutex = none := hfree
            left
            simp only [threadFunction, subscriptionUnsubscribe, subscriberProxyFree, hlive,
              Shared.lockInbox, lockMutex, hfree, if_true, Option.map_some]
            exact ⟨_, rfl⟩
          · exact Or.inr hwait
      | _ =>
          left
          simp only [threadFunction, subscriptionUnsubscribe, subscriberProxyFree, hlive]
          exact ⟨_, rfl⟩
  | get =>
      left
      simp only [threadFunction, subscriptionUnsubscribe, hderefSub, hbuckets]
      exact ⟨_, rfl⟩
  | search ch =>
      left
      obtain ⟨i, hfind, -⟩ := h.search hinv hl
      simp only [threadFunction, subscriptionUnsubscribe, hderefSub, hfind]
      exact ⟨_, rfl⟩
  | testActive | testProxy | clearActive | clearProxy =>
      left
      simp only [threadFunction, subscriptionUnsubscribe, hderefSub]
      exact ⟨_, rfl⟩
  | deactivate =>
      left
      simp only [threadFunction, subscriptionUnsubscribe, hderef _ (show 6 ≤ 18 by omega)]
      exact ⟨_, rfl⟩
  | broadcast =>
      left
      simp only [threadFunction, subscriptionUnsubscribe, hderef _ (show 6 ≤ 16 by omega)]
      exact ⟨_, rfl⟩
  | unlockInbox =>
      left
      simp only [threadFunction, subscriptionUnsubscribe, hderef _ (show 6 ≤ 15 by omega)]
      exact ⟨_, rfl⟩
  | unlink | unlockChannel | unlockChannels => exact Or.inl ⟨_, rfl⟩

/-- What a step of the call that is not its return keeps. -/
theorem OwnStep.keeps {sh sh' : Shared n} (h : OwnStep t k x sh u sh' (some u')) :
    (sh'.subscription k).released = (sh.subscription k).released ∧
    (sh'.subscription k).proxy = (sh.subscription k).proxy ∧ u' ≠ .testActive ∧
    (sh'.proxy x).channel = (sh.proxy x).channel ∧
    (6 ≤ MessageBroker.stepsLeft u' → (sh'.proxy x).released = (sh.proxy x).released) ∧
    (5 ≤ MessageBroker.stepsLeft u' →
      ∀ ch, (sh'.channel ch).subscriberProxies = (sh.channel ch).subscriberProxies) := by
  have hset : ∀ p : SubscriberProxy n, p.channel = (sh.proxy x).channel →
      ((sh.setProxy x p).proxy x).channel = (sh.proxy x).channel := by
    intro p hp
    rw [setProxy_proxy, if_pos rfl, hp]
  have hrel : ∀ p : SubscriberProxy n, p.released = (sh.proxy x).released →
      ((sh.setProxy x p).proxy x).released = (sh.proxy x).released := by
    intro p hp
    rw [setProxy_proxy, if_pos rfl, hp]
  cases h with
  | testActive | testProxy | get | search | lockChannels | unlockChannels =>
      exact ⟨rfl, rfl, UnsubscribePc.noConfusion, rfl, fun _ => rfl, fun _ _ => rfl⟩
  | deactivate | lockInbox | broadcast | unlockInbox | freeDeactivate | freeLock | freeBroadcast
  | freeUnlock =>
      exact ⟨rfl, rfl, UnsubscribePc.noConfusion, hset _ rfl, fun _ => hrel _ rfl,
        fun _ _ => rfl⟩
  | freeRelease =>
      exact ⟨rfl, rfl, UnsubscribePc.noConfusion, hset _ rfl,
        fun hle => absurd hle (show ¬ 6 ≤ 5 by omega), fun _ _ => rfl⟩
  | lockChannel ch hfree =>
      refine ⟨rfl, rfl, UnsubscribePc.noConfusion, rfl, fun _ => rfl, ?_⟩
      intro _ ch'
      rw [setChannel_channel]
      by_cases hch : ch' = ch
      · rw [if_pos hch, hch]
      · rw [if_neg hch]
  | unlink =>
      exact ⟨rfl, rfl, UnsubscribePc.noConfusion, rfl, fun _ => rfl,
        fun hle => absurd hle (show ¬ 5 ≤ 4 by omega)⟩
  | unlockChannel =>
      exact ⟨rfl, rfl, UnsubscribePc.noConfusion, rfl, fun _ => rfl,
        fun hle => absurd hle (show ¬ 5 ≤ 3 by omega)⟩
  | clearActive =>
      refine ⟨?_, ?_, UnsubscribePc.noConfusion, rfl, fun _ => rfl, fun _ _ => rfl⟩
      · simp [Shared.setSubscription]
      · simp [Shared.setSubscription]

/-- A step of the call that is not its return leaves the thread inside the call. -/
theorem InCall.own (h : InCall tr s t k x u) (hstep : OwnStep t k x s.shared u sh (some u')) :
    InCall tr ⟨s.pool, sh, Function.update s.pc t (.unsubscribe k false u'), s.faulted⟩ t k x
      u' := by
  obtain ⟨hreleased, hpointer, hne, hchannel, hlive, hlists⟩ := hstep.keeps
  have hcount := hstep.stepsLeft
  refine ⟨Function.update_self .., h.faulted, h.owned, ?_, ?_, fun heq => absurd heq hne, ?_, ?_,
    ?_⟩
  · intro t' ht
    show unsubscribing (Function.update s.pc t _ t') ≠ _ ∧ Function.update s.pc t _ t' ≠ _
    rw [Function.update_of_ne ht]
    exact h.alone t' ht
  · exact hreleased.trans h.usable
  · exact hpointer.trans h.pointer
  · intro hle
    exact (hlive hle).trans (h.live (by omega))
  · intro hle
    show x ∈ (sh.channel (sh.proxy x).channel).subscriberProxies
    rw [hchannel, hlists hle]
    exact h.listed (by omega)

end

/-! ### The call alone -/

/-- Only the thread `t` takes steps, and it makes no new call. -/
def OnlyGoes (t : Tid n) (_ : State n) (a : Action n) : Prop := a = .thread t .go

section
variable {tr : List (Event n)} {s : State n} {t : Tid n} {k x : Nat} {u : UnsubscribePc}

/-- No other thread holds a mutex that the call needs, before and after a step of the call. -/
theorem OwnStep.mutexes {sh : Shared n} {r : Option UnsubscribePc}
    (h : OwnStep t k x s.shared u sh r)
    (hch : ∀ ch, unsubscribeChannel (.unsubscribe k false u) = some ch →
      (s.shared.proxy x).channel = ch) {pcs : Tid n → Pc}
    (hfree : ∀ m t', OwnMutex s.shared x m → mutexHolder s m = some t' → t' = t) :
    ∀ m t', OwnMutex sh x m → mutexHolder ⟨s.pool, sh, pcs, s.faulted⟩ m = some t' → t' = t := by
  have hset : ∀ p : SubscriberProxy n, p.channel = (s.shared.proxy x).channel →
      (p.inboxMutex = (s.shared.proxy x).inboxMutex ∨ p.inboxMutex = none ∨
        p.inboxMutex = some t) → ∀ m t', OwnMutex (s.shared.setProxy x p) x m →
      mutexHolder ⟨s.pool, s.shared.setProxy x p, pcs, s.faulted⟩ m = some t' → t' = t := by
    rintro p hchannel hp m t' (rfl | rfl | rfl) hholder
    · exact hfree .channels t' (Or.inl rfl) hholder
    · refine hfree _ t' (Or.inr (Or.inl rfl)) ?_
      rw [setProxy_proxy, if_pos rfl, hchannel] at hholder
      exact hholder
    · change ((s.shared.setProxy x p).proxy x).inboxMutex = some t' at hholder
      rw [setProxy_proxy, if_pos rfl] at hholder
      rcases hp with hp | hp | hp <;> rw [hp] at hholder
      · exact hfree (.inbox x) t' (Or.inr (Or.inr rfl)) hholder
      · cases hholder
      · exact (Option.some.inj hholder).symm
  have hsetChannel : ∀ (ch : Nat) (c : Channel n), (s.shared.proxy x).channel = ch →
      (c.mutex = (s.shared.channel ch).mutex ∨ c.mutex = none ∨ c.mutex = some t) →
      ∀ m t', OwnMutex (s.shared.setChannel ch c) x m →
      mutexHolder ⟨s.pool, s.shared.setChannel ch c, pcs, s.faulted⟩ m = some t' → t' = t := by
    rintro ch c rfl hc m t' (rfl | rfl | rfl) hholder
    · exact hfree .channels t' (Or.inl rfl) hholder
    · change ((s.shared.setChannel (s.shared.proxy x).channel c).channel
        (s.shared.proxy x).channel).mutex = some t' at hholder
      rw [setChannel_channel, if_pos rfl] at hholder
      rcases hc with hc | hc | hc <;> rw [hc] at hholder
      · exact hfree (.channel (s.shared.proxy x).channel) t' (Or.inr (Or.inl rfl)) hholder
      · cases hholder
      · exact (Option.some.inj hholder).symm
    · exact hfree (.inbox x) t' (Or.inr (Or.inr rfl)) hholder
  have hsame : ∀ m t', OwnMutex s.shared x m →
      mutexHolder ⟨s.pool, s.shared, pcs, s.faulted⟩ m = some t' → t' = t := by
    rintro m t' (rfl | rfl | rfl) hholder
    · exact hfree .channels t' (Or.inl rfl) hholder
    · exact hfree _ t' (Or.inr (Or.inl rfl)) hholder
    · exact hfree _ t' (Or.inr (Or.inr rfl)) hholder
  have hmutex : ∀ holder : Option (Tid n), (holder = none ∨ holder = some t) → ∀ m t',
      OwnMutex { s.shared with channelsMutex := holder } x m →
      mutexHolder ⟨s.pool, { s.shared with channelsMutex := holder }, pcs, s.faulted⟩ m
        = some t' → t' = t := by
    rintro holder hholder m t' (rfl | rfl | rfl) hm
    · change holder = some t' at hm
      rcases hholder with rfl | rfl
      · cases hm
      · exact (Option.some.inj hm).symm
    · exact hfree _ t' (Or.inr (Or.inl rfl)) hm
    · exact hfree _ t' (Or.inr (Or.inr rfl)) hm
  cases h with
  | testActive | testProxy | get | search => exact hsame
  | deactivate | freeDeactivate | freeRelease | broadcast | freeBroadcast =>
      exact hset _ rfl (Or.inl rfl)
  | unlockInbox | freeUnlock => exact hset _ rfl (Or.inr (Or.inl rfl))
  | lockInbox | freeLock => exact hset _ rfl (Or.inr (Or.inr rfl))
  | lockChannels => exact hmutex _ (Or.inr rfl)
  | unlockChannels => exact hmutex _ (Or.inl rfl)
  | lockChannel ch => exact hsetChannel ch _ (hch ch rfl) (Or.inr (Or.inr rfl))
  | unlockChannel ch => exact hsetChannel ch _ (hch ch rfl) (Or.inr (Or.inl rfl))
  | unlink ch => exact hsetChannel ch _ (hch ch rfl) (Or.inl rfl)
  | clearActive | clearProxy =>
      rintro m t' (rfl | rfl | rfl) hholder
      · exact hfree .channels t' (Or.inl rfl) hholder
      · exact hfree _ t' (Or.inr (Or.inl rfl)) hholder
      · exact hfree _ t' (Or.inr (Or.inr rfl)) hholder

/-- The step of the machine. -/
theorem InCall.next_eq (h : InCall tr s t k x u) {move : Move n} {sh : Shared n} {pc : Pc}
    {e : Option (Event n)}
    (hf : threadFunction t s.shared (.unsubscribe k false u) move = some (.step sh pc e)) :
    next s (.thread t move) =
      some (⟨s.pool, sh, Function.update s.pc t pc, s.faulted⟩, e) := by
  simp [next, h.faulted, h.pc, hf]

/-- When no other thread holds a mutex that the call needs, the call can be run to its end. It
returns 0, and what is left of the broker is as before, without the proxy in the list of its
channel. -/
theorem InCall.completes (hrun : (machine n capacity hcap).RunIf AllocationsSucceed tr s)
    (hbound : s.shared.nextSubscribe < 2 ^ 64) (h : InCall tr s t k x u)
    (hfree : ∀ m t', OwnMutex s.shared x m → mutexHolder s m = some t' → t' = t) :
    ∃ s', ((machine n capacity hcap).startAt s).RunIf (OnlyGoes t) [.unsubscribed t k 0] s' ∧
      OwnProxyOnly k x s.shared s'.shared ∧ Unlisted s'.shared x := by
  induction hm : stepsLeft u generalizing tr s u with
  | zero =>
      exfalso
      cases u with
      | freeProxy ch i y f => cases f <;> cases hm
      | _ => cases hm
  | succ m ih =>
      obtain ⟨hinv, hl⟩ := listedInv_of_bound hrun hbound
      have hnodup := fun ch => hinv.list.nodup ch
      obtain ⟨o, ho⟩ : ∃ o, threadFunction t s.shared (.unsubscribe k false u) .go = some o := by
        rcases h.progress hinv hl (unlocked_of_run hrun) (inboxMutexInv_of_run hrun) with
          ho | ⟨m, t', hne, hown, -, hholder⟩
        · exact ho
        · exact absurd (hfree m t' hown hholder) hne
      obtain ⟨sh, r, hstep, rfl⟩ := h.ownStep hinv hl (by simp) ho
      have hnext := h.next_eq ho
      have hframe := hstep.ownProxyOnly (h.channel hl) hnodup
      have hsnoc : ((machine n capacity hcap).startAt s).RunIf (OnlyGoes t)
          ([] ++ (eventAfter t k r).toList)
          ⟨s.pool, sh, Function.update s.pc t (pcAfter k r), s.faulted⟩ :=
        .snoc .nil rfl hnext
      cases r with
      | none =>
          refine ⟨_, hsnoc, hframe, ?_⟩
          -- the call has taken the proxy out of the list
          have hremoved : Unlisted s.shared x := by
            refine hl.removed t k x ?_ h.owned
            rw [h.pc]
            cases hstep
            rfl
          cases hstep
          exact hremoved
      | some u' =>
          have hcount := hstep.stepsLeft
          have hrun' := hrun.snoc (show AllocationsSucceed s (.thread t .go) from trivial) hnext
          rw [show (eventAfter t k (some u')).toList = [] from rfl, List.append_nil] at hrun'
          have hbound' : (State.mk s.pool sh (Function.update s.pc t (pcAfter k (some u')))
              s.faulted).shared.nextSubscribe < 2 ^ 64 := by
            have hle : sh.nextSubscribe = s.shared.nextSubscribe := by cases hstep <;> rfl
            show sh.nextSubscribe < _
            rw [hle]
            exact hbound
          obtain ⟨s', hrest, hframe', hunlisted⟩ := ih hrun' hbound' (h.own hstep)
            (hstep.mutexes (h.channel hl) hfree) (by omega)
          exact ⟨s', hsnoc.trans hrest, hframe.trans hframe' (hnodup _), hunlisted⟩

end

/-! ### The other threads -/

/-- No allocation fails, and the step calls neither an unsubscribe nor a free of the
subscription. -/
def AloneWith (k : Nat) (s : State n) (a : Action n) : Prop :=
  AllocationsSucceed s a ∧ ∀ t, a ≠ .thread t (.callUnsubscribe k) ∧ a ≠ .thread t (.callFree k)

instance (k : Nat) (s : State n) (a : Action n) : Decidable (AloneWith k s a) :=
  match a with
  | .thread t move =>
      if hmove : move = .callUnsubscribe k ∨ move = .callFree k then
        .isFalse fun h => by
          rcases hmove with rfl | rfl
          · exact (h.2 t).1 rfl
          · exact (h.2 t).2 rfl
      else
        decidable_of_iff (AllocationsSucceed s (.thread t move)) ⟨fun hs => ⟨hs, fun t' =>
          ⟨fun heq => hmove (Or.inl (Action.thread.inj heq).2),
            fun heq => hmove (Or.inr (Action.thread.inj heq).2)⟩⟩, fun h => h.1⟩
  | .dispatcher d => .isTrue ⟨trivial, fun _ => ⟨fun heq => (by cases heq), fun heq => (by cases heq)⟩⟩
  | .submit c => .isTrue ⟨trivial, fun _ => ⟨fun heq => (by cases heq), fun heq => (by cases heq)⟩⟩
  | .wait c => .isTrue ⟨trivial, fun _ => ⟨fun heq => (by cases heq), fun heq => (by cases heq)⟩⟩
  | .pool c move =>
      decidable_of_iff (AllocationsSucceed s (.pool c move)) ⟨fun hs => ⟨hs, fun _ =>
        ⟨fun heq => (by cases heq), fun heq => (by cases heq)⟩⟩, fun h => h.1⟩

/-- A thread is marked as faulted by its own step only. -/
theorem next_faulted {s s' : State n} {a : Action n} {e : Option (Event n)}
    (h : next s a = some (s', e)) (t : Tid n) :
    s'.faulted t = s.faulted t ∨
      ∃ move, a = .thread t move ∧ threadFunction t s.shared (s.pc t) move = some .fault := by
  cases a with
  | dispatcher d =>
      simp only [next, Option.ite_none_right_eq_some, Option.map_eq_some_iff, Prod.mk.injEq] at h
      obtain ⟨-, r, -, rfl, -⟩ := h
      exact Or.inl rfl
  | submit c =>
      simp only [next] at h
      split at h
      · simp only [Option.map_eq_some_iff, Prod.mk.injEq] at h
        obtain ⟨r, -, rfl, -⟩ := h
        exact Or.inl rfl
      · cases h
  | wait c | pool c move =>
      simp only [next, Option.ite_none_right_eq_some, Option.map_eq_some_iff, Prod.mk.injEq] at h
      obtain ⟨-, r, -, rfl, -⟩ := h
      exact Or.inl rfl
  | thread t' move =>
      simp only [next, Option.ite_none_left_eq_some, Option.map_eq_some_iff] at h
      obtain ⟨-, o, ho, hs⟩ := h
      cases o with
      | step sh pc e' =>
          obtain ⟨rfl, -⟩ := Prod.mk.inj hs
          exact Or.inl rfl
      | fault =>
          obtain ⟨rfl, -⟩ := Prod.mk.inj hs
          by_cases ht : t = t'
          · subst ht
            exact Or.inr ⟨move, rfl, ho⟩
          · exact Or.inl (Function.update_of_ne ht _ _)

/-- A thread comes to the release of a subscription by a call of `subscription_free`, or by an
unsubscribe that is a part of it. -/
theorem threadFunction_free {t : Tid n} {sh sh' : Shared n} {pc : Pc} {move : Move n} {k : Nat}
    {e : Option (Event n)} (h : threadFunction t sh pc move = some (.step sh' (.free k) e))
    (hstep : ThreadStep t sh pc sh' (.free k) e) :
    unsubscribing pc = some k ∨ move = .callFree k := by
  cases hstep with
  | callFree c ht =>
      subst ht
      right
      cases move with
      | callFree k' =>
          simp only [threadFunction, call, Option.ite_none_right_eq_some, Option.some.injEq] at h
          obtain ⟨-, h⟩ := h
          split at h
          · cases h
          · obtain ⟨-, hpc, -⟩ := Outcome.step.inj h
            rw [Pc.free.inj hpc]
      | callPublish | callSubscribe => simp [threadFunction, call] at h
      | callUnsubscribe | callReceive | callPendingCount => simp [threadFunction, call] at h
      | _ => cases h
  | unsubscribeInactive hret | clearProxy hret =>
      rcases hret with ⟨hpc, -⟩ | ⟨hpc, -⟩
      · rw [Pc.free.inj hpc]
        exact Or.inl rfl
      · cases hpc
  | receiveRead hret => rcases hret with ⟨_, hpc, -⟩ | ⟨hpc, -⟩ <;> cases hpc
  | receiveInbox _ _ _ _ hret => rcases hret with ⟨_, hpc, -⟩ | ⟨hpc, -⟩ <;> cases hpc
  | pendingRead hret => rcases hret with ⟨hpc, -⟩ | ⟨hpc, -⟩ <;> cases hpc

/-- A step of a thread that is in no unsubscribe of the subscription and does not free it leaves
the thread so, when it calls neither. -/
theorem alone_of_step {s : State n} {t : Tid n} {move : Move n} {sh : Shared n} {pc : Pc}
    {e : Option (Event n)} {k : Nat} (hK : AloneWith k s (.thread t move))
    (hf : threadFunction t s.shared (s.pc t) move = some (.step sh pc e))
    (hstep : ThreadStep t s.shared (s.pc t) sh pc e) (hfaulted : s.faulted t = false)
    (halone : unsubscribing (s.pc t) ≠ some k) : unsubscribing pc ≠ some k ∧ pc ≠ .free k := by
  constructor
  · intro huns
    rcases hstep.unsubscribing huns with hold | ⟨rfl, -⟩
    · exact halone hold
    · have hnext : next s (.thread t move) = some (⟨s.pool, sh, Function.update s.pc t pc,
          s.faulted⟩, some (.unsubscribeCall t k)) := by
        simp [next, hfaulted, hf]
      rcases (next_unsubscribeCall hnext).1 with heq | heq
      · exact (hK.2 t).1 heq
      · exact (hK.2 t).2 heq
  · rintro rfl
    rcases threadFunction_free hf hstep with hold | rfl
    · exact halone hold
    · exact (hK.2 t).2 rfl

/-- A step of another thread leaves the call undisturbed. -/
theorem InCall.other {tr : List (Event n)} {s s' : State n} {t : Tid n} {k x : Nat}
    {u : UnsubscribePc} {a : Action n} {e : Option (Event n)} (h : InCall tr s t k x u)
    (hrun : (machine n capacity hcap).RunIf AllocationsSucceed tr s)
    (hbound : s.shared.nextSubscribe < 2 ^ 64) (hK : AloneWith k s a)
    (hnext : next s a = some (s', e)) (hother : ∀ move, a ≠ .thread t move) :
    InCall (tr ++ e.toList) s' t k x u := by
  obtain ⟨hinv, -⟩ := listedInv_of_bound hrun hbound
  have hfaulted : s'.faulted t = false := by
    rcases next_faulted hnext t with hsame | ⟨move, rfl, -⟩
    · exact hsame.trans h.faulted
    · exact absurd rfl (hother move)
  rcases next_cases hnext with ⟨b, pool, t₁, pc, e', -, -, -, hold, hnew, rfl⟩ |
      ⟨t₁, move, sh, pc, rfl, hf, rfl⟩ | ⟨t₁, rfl, rfl⟩
  · have hne : t ≠ t₁ := by
      rintro rfl
      rw [h.pc] at hold
      cases hold
    refine ⟨(Function.update_of_ne hne _ _).trans h.pc, hfaulted, h.owned.append, ?_, h.usable,
      h.active, h.pointer, h.live, h.listed⟩
    refine forall_update (P := fun t' pc => t' ≠ t → unsubscribing pc ≠ some k ∧ pc ≠ .free k)
      ?_ fun t' _ => h.alone t'
    intro _
    rcases inCall_cases hnew with rfl | ⟨arg, rfl⟩ | rfl | ⟨arg, rfl⟩ <;>
      exact ⟨fun heq => (by cases heq), fun heq => (by cases heq)⟩
  · have hne : t ≠ t₁ := by
      rintro rfl
      exact hother move rfl
    obtain ⟨halone, hfree⟩ := h.alone t₁ hne.symm
    have hlive₁ : s.faulted t₁ = false := by
      simp only [next, Option.ite_none_left_eq_some] at hnext
      simpa using hnext.1
    have hstep := threadFunction_step hf (by rintro rfl; exact hK.1) (by rintro rfl; exact hK.1)
      (onFailurePath_of_run hrun t₁)
    obtain ⟨t₂, name, hmem⟩ := h.owned
    obtain ⟨hk, hx, -⟩ := hinv.owner.owned t₂ k x name hmem
    have hobject := hstep.objectStep (hinv.fresh _ le_rfl).2
    have hsub := hstep.subscription_of_other hk halone hfree
    -- the other thread has found the proxy of another subscription
    have htarget : ∀ k' ch i, targetOf (s.pc t₁) = some (k', ch, i) →
        (s.shared.channel ch).subscriberProxies[i]? ≠ some x := by
      intro k' ch i htarget hx
      obtain ⟨howned, -⟩ := owned_of_target hinv htarget hx
      obtain rfl := (hinv.owner.unique k' k x x howned h.owned).mpr rfl
      exact halone (channelHeld_of_target htarget).2
    refine ⟨(Function.update_of_ne hne _ _).trans h.pc, hfaulted, h.owned.append, ?_, ?_, ?_, ?_,
      ?_, ?_⟩
    · refine forall_update (P := fun t' pc => t' ≠ t → unsubscribing pc ≠ some k ∧ pc ≠ .free k)
        ?_ fun t' _ => h.alone t'
      intro _
      exact alone_of_step hK hf hstep hlive₁ halone
    · show (sh.subscription k).released = false
      rw [hsub]
      exact h.usable
    · intro hu
      show (sh.subscription k).active = true
      rw [hsub]
      exact h.active hu
    · show (sh.subscription k).proxy = some x
      rw [hsub]
      exact h.pointer
    · intro hle
      rcases hstep.released hx (h.live hle) with hlive | ⟨k', thenFree, ch, i, hpc, -⟩
      · exact hlive
      · have hfound : targetOf (s.pc t₁) = some (k', ch, i) := by rw [hpc]; rfl
        obtain ⟨y, hy, -, hfreed⟩ := hinv.target.target t₁ k' ch i hfound
        obtain rfl : x = y := hfreed x (by rw [hpc]; rfl)
        exact absurd hy (htarget k' ch i hfound)
    · intro hle
      show x ∈ (sh.channel (sh.proxy x).channel).subscriberProxies
      rw [(hobject.frame.2.1.2 x hx).2]
      rcases hobject.mem.2 (h.listed hle) with hmem | ⟨k', i, hfound, hi⟩
      · exact hmem
      · exact absurd hi (htarget k' _ i hfound)
  · exact ⟨h.pc, hfaulted, h.owned.append, h.alone, h.usable, h.active, h.pointer, h.live,
      h.listed⟩

/-! ### After the return -/

/-- An enqueue into an inbox comes from a task that has the proxy in hand. -/
theorem ThreadStep.put_current {t t' : Tid n} {sh sh' : Shared n} {pc pc' : Pc}
    {e : Option (Event n)} (h : ThreadStep t sh pc sh' pc' e) {x : Nat} {msg : Message}
    (he : e = some (.put t' x msg)) : ∃ ch i, currentOf pc = some (ch, i, x) := by
  cases h with
  | put ch i y =>
      obtain ⟨-, rfl, -⟩ := Event.put.inj (Option.some.inj he)
      exact ⟨ch, i, rfl⟩
  | unsubscribeInactive hret | clearProxy hret =>
      rcases hret with ⟨-, rfl⟩ | ⟨-, rfl⟩ <;> cases he
  | receiveRead hret | receiveInbox _ _ _ _ hret =>
      rcases hret with ⟨_, -, rfl⟩ | ⟨-, rfl⟩ <;> cases he
  | pendingRead hret => rcases hret with ⟨-, rfl⟩ | ⟨-, _, rfl⟩ <;> cases he
  | _ => cases he

/-- A subscribe takes the next id. -/
theorem ThreadStep.subscribeCall_id {t t' : Tid n} {sh sh' : Shared n} {pc pc' : Pc}
    {e : Option (Event n)} (h : ThreadStep t sh pc sh' pc' e) {id : UInt64} {name : CString}
    (he : e = some (.subscribeCall t' id name)) :
    id = sh.nextSubscriberId ∧ sh'.nextSubscribe = sh.nextSubscribe + 1 := by
  cases h with
  | callSubscribe c ht name' =>
      obtain ⟨-, rfl, -⟩ := Event.subscribeCall.inj (Option.some.inj he)
      exact ⟨rfl, rfl⟩
  | unsubscribeInactive hret | clearProxy hret =>
      rcases hret with ⟨-, rfl⟩ | ⟨-, rfl⟩ <;> cases he
  | receiveRead hret | receiveInbox _ _ _ _ hret =>
      rcases hret with ⟨_, -, rfl⟩ | ⟨-, rfl⟩ <;> cases he
  | pendingRead hret => rcases hret with ⟨-, rfl⟩ | ⟨-, _, rfl⟩ <;> cases he
  | _ => cases he

/-- What a step does to a proxy of a subscription that is in no list: nothing is put into its
inbox, and nobody else gets its id. -/
theorem unlisted_of_next {tr : List (Event n)} {s s' : State n} {a : Action n}
    {e : Option (Event n)} (hrun : (machine n capacity hcap).RunIf AllocationsSucceed tr s)
    (hK : AllocationsSucceed s a) (hnext : next s a = some (s', e))
    (hbound : s'.shared.nextSubscribe < 2 ^ 64) {k x : Nat} (howned : Owned tr k x)
    (hunlisted : Unlisted s.shared x) :
    Unlisted s'.shared x ∧ (s'.shared.proxy x).id = (s.shared.proxy x).id ∧
      (∀ t msg, e ≠ some (.put t x msg)) ∧
      ∀ t id name, e = some (.subscribeCall t id name) → id ≠ (s.shared.proxy x).id := by
  have hbefore := (nextSubscribe_le_of_next hrun hK hnext).trans_lt hbound
  obtain ⟨hinv, -⟩ := listedInv_of_bound hrun hbefore
  rcases next_cases hnext with ⟨b, pool, t, pc, e', -, -, rfl, -, -, rfl⟩ |
      ⟨t, move, sh, pc, rfl, hf, rfl⟩ | ⟨t, rfl, rfl⟩
  · refine ⟨hunlisted, rfl, fun t msg he => ?_, fun t id name he => ?_⟩ <;>
      cases e' <;> cases he
  · have hstep := threadFunction_step hf (by rintro rfl; exact hK) (by rintro rfl; exact hK)
      (onFailurePath_of_run hrun t)
    have hobject := hstep.objectStep (hinv.fresh _ le_rfl).2
    obtain ⟨t₁, name₁, hmem⟩ := howned
    obtain ⟨-, hx, -⟩ := hinv.owner.owned t₁ k x name₁ hmem
    refine ⟨unlisted_thread hinv hobject ⟨t₁, name₁, hmem⟩ hunlisted,
      (hobject.frame.2.1.2 x hx).1, ?_, ?_⟩
    · intro t' msg he
      obtain ⟨ch, i, hcurrent⟩ := hstep.put_current he
      exact hunlisted ch (List.mem_of_getElem? (currentInv_of_run hrun t ch i x hcurrent))
    · intro t' id name he hid
      obtain ⟨rfl, hcount⟩ := hstep.subscribeCall_id he
      have htaken := hinv.id.taken x hx
      have hlt : s.shared.nextSubscribe + 1 < 2 ^ 64 := by
        rw [← hcount]
        exact hbound
      rw [← hid, hinv.id.next, UInt64.toNat_ofNat', Nat.mod_eq_of_lt hlt] at htaken
      omega
  · exact ⟨hunlisted, rfl, fun _ _ he => (by cases he), fun _ _ _ he => (by cases he)⟩

/-- Nothing comes into the inbox of the proxy `x`, which is in no list, and nobody gets the id
of the subscription `k`. -/
structure Gone (id : UInt64) (k x : Nat) (tr : List (Event n)) (s : State n) : Prop where
  unlisted : Unlisted s.shared x
  put : ∀ t msg, .put t x msg ∉ tr
  called : ∀ t id' name, .subscribeCall t id' name ∈ tr → id' ≠ id
  subscription : ∀ k', k' < s.shared.nextSubscription →
    (s.shared.subscription k').id = id → k' = k

/-- The id of a subscription is the id of its proxy. -/
theorem BrokerInv.id_eq {tr : List (Event n)} {s : State n} (hinv : BrokerInv tr s) {k x : Nat}
    (howned : Owned tr k x) : (s.shared.subscription k).id = (s.shared.proxy x).id := by
  obtain ⟨t, name, hmem⟩ := howned
  exact (hinv.owner.owned t k x name hmem).2.2.1

/-- No later subscription has the id of a subscription. -/
theorem BrokerInv.unique {tr : List (Event n)} {s : State n} (hinv : BrokerInv tr s) {k k' x : Nat}
    (howned : Owned tr k x) (hk' : k' < s.shared.nextSubscription)
    (hid : (s.shared.subscription k').id = (s.shared.proxy x).id) : k' = k := by
  obtain ⟨y, hy⟩ := hinv.owner.owner k' hk'
  obtain ⟨t, name, hmem⟩ := howned
  obtain ⟨t', name', hmem'⟩ := hy
  refine (hinv.owner.unique k' k y x ⟨t', name', hmem'⟩ ⟨t, name, hmem⟩).mpr ?_
  refine hinv.id.unique y x (hinv.owner.owned t' k' y name' hmem').2.1
    (hinv.owner.owned t k x name hmem).2.1 ?_
  rw [← hid, hinv.id_eq ⟨t', name', hmem'⟩]

/-- A proxy that has been taken out of the list stays away. -/
theorem gone_of_run {tr : List (Event n)} {s : State n}
    (hrun : (machine n capacity hcap).RunIf AllocationsSucceed tr s) {k x : Nat}
    (howned : Owned tr k x) (hunlisted : Unlisted s.shared x) {tr' : List (Event n)}
    {s' : State n} (h : ((machine n capacity hcap).startAt s).RunIf AllocationsSucceed tr' s')
    (hbound : s'.shared.nextSubscribe < 2 ^ 64) :
    Gone (s.shared.proxy x).id k x tr' s' ∧
      (s'.shared.proxy x).id = (s.shared.proxy x).id := by
  refine h.induction (I := fun tr' s' => s'.shared.nextSubscribe < 2 ^ 64 →
    Gone (s.shared.proxy x).id k x tr' s' ∧
      (s'.shared.proxy x).id = (s.shared.proxy x).id) ?_ ?_ hbound
  · intro hbound
    obtain ⟨hinv, -⟩ := listedInv_of_bound hrun hbound
    exact ⟨⟨hunlisted, fun _ _ hmem => (by cases hmem), fun _ _ _ hmem => (by cases hmem),
      fun k' hk' hid => hinv.unique howned hk' hid⟩, rfl⟩
  · intro tr' s₁ a s₂ e hmid ih hK hnext hbound
    have hrun₁ := hrun.trans hmid
    have hbefore := (nextSubscribe_le_of_next hrun₁ hK hnext).trans_lt hbound
    obtain ⟨hgone, hid⟩ := ih hbefore
    obtain ⟨hun, hid', hput, hcall⟩ :=
      unlisted_of_next hrun₁ hK hnext hbound howned.append hgone.unlisted
    obtain ⟨hinv, -⟩ := listedInv_of_bound (hrun₁.snoc hK hnext) hbound
    refine ⟨⟨hun, ?_, ?_, ?_⟩, hid'.trans hid⟩
    · intro t msg hmem
      rcases List.mem_append.mp hmem with hmem | hmem
      · exact hgone.put t msg hmem
      · exact hput t msg (Option.mem_toList.mp hmem)
    · intro t id name hmem
      rcases List.mem_append.mp hmem with hmem | hmem
      · exact hgone.called t id name hmem
      · rw [← hid]
        exact hcall t id name (Option.mem_toList.mp hmem)
    · intro k' hk' heq
      refine hinv.unique howned.append.append hk' ?_
      rw [heq, hid', hid]

/-! ### The run -/

/-- A thread that returns from an unsubscribe was inside it. -/
theorem ThreadStep.unsubscribed {t t' : Tid n} {sh sh' : Shared n} {pc pc' : Pc}
    {e : Option (Event n)} (h : ThreadStep t sh pc sh' pc' e) {k : Nat} {code : Int}
    (he : e = some (.unsubscribed t' k code)) : MessageBroker.unsubscribing pc = some k := by
  cases h with
  | unsubscribeInactive hret | clearProxy hret =>
      rcases hret with ⟨-, rfl⟩ | ⟨-, rfl⟩
      · cases he
      · obtain ⟨-, rfl, -⟩ := Event.unsubscribed.inj (Option.some.inj he)
        rfl
  | receiveRead hret | receiveInbox _ _ _ _ hret =>
      rcases hret with ⟨_, -, rfl⟩ | ⟨-, rfl⟩ <;> cases he
  | pendingRead hret => rcases hret with ⟨-, rfl⟩ | ⟨-, _, rfl⟩ <;> cases he
  | _ => cases he

/-- A step that does not come from an unsubscribe of the subscription is not its return. -/
theorem not_unsubscribed_of_next {tr : List (Event n)} {s s' : State n} {a : Action n}
    {e : Option (Event n)} (hrun : (machine n capacity hcap).RunIf AllocationsSucceed tr s)
    (hK : AllocationsSucceed s a) (hnext : next s a = some (s', e)) {k : Nat}
    (halone : ∀ t move, a = .thread t move → unsubscribing (s.pc t) ≠ some k) (t' : Tid n)
    (code : Int) : e ≠ some (.unsubscribed t' k code) := by
  intro he
  rcases next_cases hnext with ⟨b, pool, t, pc, e', -, -, rfl, -, -, -⟩ |
      ⟨t, move, sh, pc, rfl, hf, -⟩ | ⟨t, rfl, -⟩
  · cases e' <;> cases he
  · have hstep := threadFunction_step hf (by rintro rfl; exact hK) (by rintro rfl; exact hK)
      (onFailurePath_of_run hrun t)
    exact halone t move rfl (hstep.unsubscribed he)
  · cases he

/-- Where the call of an unsubscribe is: it goes on, or it has returned 0. -/
def Phase (tr₁ tr : List (Event n)) (s : State n) (t : Tid n) (k x : Nat) : Prop :=
  ((∃ u, InCall (tr₁ ++ tr) s t k x u) ∧ ∀ t' code, .unsubscribed t' k code ∉ tr) ∨
  (Unlisted s.shared x ∧ (∀ t', unsubscribing (s.pc t') ≠ some k) ∧ .unsubscribed t k 0 ∈ tr ∧
    ∀ t' code, .unsubscribed t' k code ∈ tr → t' = t ∧ code = 0)

/-- A step of the thread that makes the call. -/
theorem InCall.phase {tr₁ tr : List (Event n)} {s s' : State n} {t : Tid n} {k x : Nat}
    {u : UnsubscribePc} {move : Move n} {e : Option (Event n)}
    (h : InCall (tr₁ ++ tr) s t k x u)
    (hrun : (machine n capacity hcap).RunIf AllocationsSucceed (tr₁ ++ tr) s)
    (hbound : s.shared.nextSubscribe < 2 ^ 64) (hmove : move ≠ .fail)
    (hnot : ∀ t' code, .unsubscribed t' k code ∉ tr)
    (hnext : next s (.thread t move) = some (s', e)) :
    Phase tr₁ (tr ++ e.toList) s' t k x := by
  obtain ⟨hinv, hl⟩ := listedInv_of_bound hrun hbound
  simp only [next, Option.ite_none_left_eq_some, Option.map_eq_some_iff, h.pc] at hnext
  obtain ⟨-, o, ho, hs⟩ := hnext
  obtain ⟨sh, r, hstep, rfl⟩ := h.ownStep hinv hl hmove ho
  obtain ⟨rfl, rfl⟩ := Prod.mk.inj hs
  cases r with
  | some u' =>
      rw [show (eventAfter t k (some u')).toList = [] from rfl, List.append_nil]
      exact Or.inl ⟨⟨u', h.own hstep⟩, hnot⟩
  | none =>
      right
      have hremoved : Unlisted s.shared x := by
        refine hl.removed t k x ?_ h.owned
        rw [h.pc]
        cases hstep
        rfl
      refine ⟨?_, ?_, List.mem_append_right _ (List.mem_singleton_self _), ?_⟩
      · cases hstep
        exact hremoved
      · refine forall_update (P := fun _ pc => unsubscribing pc ≠ some k)
          (fun heq => (by cases heq)) fun t' ht => (h.alone t' ht).1
      · intro t' code hmem
        rcases List.mem_append.mp hmem with hmem | hmem
        · exact absurd hmem (hnot t' code)
        · obtain ⟨rfl, -, rfl⟩ := Event.unsubscribed.inj (List.mem_singleton.mp hmem)
          exact ⟨rfl, rfl⟩

/-- In every run without another unsubscribe or free of the subscription, the call goes on until
it returns 0. -/
theorem phase_of_run {tr₁ : List (Event n)} {s₁ : State n} {t : Tid n} {k x : Nat}
    (hrun₁ : (machine n capacity hcap).RunIf AllocationsSucceed tr₁ s₁)
    (hin : InCall tr₁ s₁ t k x .testActive) {tr : List (Event n)} {s : State n}
    (h : ((machine n capacity hcap).startAt s₁).RunIf (AloneWith k) tr s)
    (hbound : s.shared.nextSubscribe < 2 ^ 64) : Phase tr₁ tr s t k x := by
  refine h.induction (I := fun tr s => s.shared.nextSubscribe < 2 ^ 64 → Phase tr₁ tr s t k x)
    ?_ ?_ hbound
  · intro _
    rw [Phase, List.append_nil]
    exact Or.inl ⟨⟨_, hin⟩, fun _ _ hmem => (by cases hmem)⟩
  · intro tr s a s' e hmid ih hK hnext hbound
    have hrun := hrun₁.trans (hmid.mono fun _ _ h => h.1)
    have hbefore := (nextSubscribe_le_of_next hrun hK.1 hnext).trans_lt hbound
    rcases ih hbefore with ⟨⟨u, hcall⟩, hnot⟩ | ⟨hunlisted, halone, hret, honly⟩
    · by_cases hown : ∃ move, a = .thread t move
      · obtain ⟨move, rfl⟩ := hown
        exact hcall.phase hrun hbefore (by rintro rfl; exact hK.1) hnot hnext
      · have hother : ∀ move, a ≠ .thread t move := fun move heq => hown ⟨move, heq⟩
        have hnext' := hcall.other hrun hbefore hK hnext hother
        rw [List.append_assoc] at hnext'
        refine Or.inl ⟨⟨u, hnext'⟩, ?_⟩
        intro t' code hmem
        rcases List.mem_append.mp hmem with hmem | hmem
        · exact hnot t' code hmem
        · refine not_unsubscribed_of_next hrun hK.1 hnext ?_ t' code (Option.mem_toList.mp hmem)
          rintro t₁ move rfl
          exact (hcall.alone t₁ fun heq => hother move (by rw [heq])).1
    · right
      have howned : Owned (tr₁ ++ tr) k x := hin.owned.append
      have hevent := not_unsubscribed_of_next hrun hK.1 hnext fun t' _ _ => halone t'
      refine ⟨(unlisted_of_next hrun hK.1 hnext hbound howned hunlisted).1, ?_,
        List.mem_append_left _ hret, ?_⟩
      · rcases next_cases hnext with ⟨b, pool, t₁, pc, e', -, -, -, -, hnew, rfl⟩ |
            ⟨t₁, move, sh, pc, rfl, hf, rfl⟩ | ⟨t₁, -, rfl⟩
        · refine forall_update (P := fun _ pc => unsubscribing pc ≠ some k) ?_
            fun t' _ => halone t'
          rcases inCall_cases hnew with rfl | ⟨arg, rfl⟩ | rfl | ⟨arg, rfl⟩ <;>
            exact fun heq => (by cases heq)
        · have hlive : s.faulted t₁ = false := by
            have hnext := hnext
            simp only [Machine.startAt, machine, next, Option.ite_none_left_eq_some] at hnext
            simpa using hnext.1
          have hstep := threadFunction_step hf (by rintro rfl; exact hK.1)
            (by rintro rfl; exact hK.1) (onFailurePath_of_run hrun t₁)
          exact forall_update (P := fun _ pc => unsubscribing pc ≠ some k)
            (alone_of_step hK hf hstep hlive (halone t₁)).1 fun t' _ => halone t'
        · exact halone
      · intro t' code hmem
        rcases List.mem_append.mp hmem with hmem | hmem
        · exact honly t' code hmem
        · exact absurd (Option.mem_toList.mp hmem) (hevent t' code)

/-- The call of an unsubscribe of an active subscription that nobody else unsubscribes. -/
theorem inCall_of_call {tr₀ : List (Event n)} {s₀ s₁ : State n} {c k : Nat}
    (h₀ : (machine n capacity hcap).RunIf AllocationsSucceed tr₀ s₀)
    (hbound : s₀.shared.nextSubscribe < 2 ^ 64)
    (hactive : (s₀.shared.subscription k).active = true)
    (halone : ∀ t, unsubscribing (s₀.pc t) ≠ some k)
    (hcall : next s₀ (.thread (.client c) (.callUnsubscribe k)) =
      some (s₁, some (.unsubscribeCall (.client c) k))) :
    ∃ x, Owned tr₀ k x ∧ s₁.shared = s₀.shared ∧
      x ∈ (s₀.shared.channel (s₀.shared.proxy x).channel).subscriberProxies ∧
      InCall (tr₀ ++ [.unsubscribeCall (.client c) k]) s₁ (.client c) k x .testActive := by
  obtain ⟨hinv, hl⟩ := listedInv_of_bound h₀ hbound
  have hpointer := pointerInv_of_run h₀
  obtain ⟨-, hidle, hk⟩ := next_unsubscribeCall hcall
  obtain ⟨x, howned⟩ := hinv.owner.owner k hk
  -- nobody has unsubscribed it before
  have hnot : ¬ Unsubscribed tr₀ k := by
    intro hun
    rcases (unsubscribedInv_of_run h₀ k hun).2 with hoff | ⟨t, ht⟩
    · rw [hactive] at hoff
      cases hoff
    · exact halone t ht
  have hlisted := hl.listed k x howned hnot
  have hlive : (s₀.shared.proxy x).released = false := by
    rw [← Bool.not_eq_true]
    intro hreleased
    obtain ⟨t, k', hmem, howned'⟩ :=
      unsubscribing_of_released h₀ hbound (hpointer.owned k x howned).2 hreleased
    obtain rfl := (hinv.owner.unique k' k x x howned' howned).mpr rfl
    exact hnot ⟨t, hmem⟩
  simp only [next, hidle, threadFunction, call, Option.ite_none_left_eq_some,
    Option.map_eq_some_iff, Option.ite_none_right_eq_some] at hcall
  obtain ⟨hfaulted, o, ⟨husable, ho⟩, hs⟩ := hcall
  obtain rfl := Option.some.inj ho
  obtain ⟨rfl, -⟩ := Prod.mk.inj hs
  have husable : (s₀.shared.subscription k).released = false := by
    simpa using (Bool.and_eq_true_iff.mp husable).2
  refine ⟨x, howned, rfl, hlisted, Function.update_self .., by simpa using hfaulted,
    howned.append, ?_, husable, fun _ => hactive, ?_, fun _ => hlive, fun _ => hlisted⟩
  · intro t' ht
    show unsubscribing (Function.update s₀.pc _ _ t') ≠ _ ∧ Function.update s₀.pc _ _ t' ≠ _
    rw [Function.update_of_ne ht]
    refine ⟨halone t', fun hfree => ?_⟩
    have hoff := (endedInv_of_run h₀ t' k (by rw [hfree]; rfl)).2
    rw [hactive] at hoff
    cases hoff
  · rcases hpointer.keep k x howned with hkeep | ⟨-, hun⟩
    · exact hkeep
    · exact absurd hun hnot

/-- The number of subscribes does not fall in a run. -/
theorem nextSubscribe_le_of_run {tr₁ : List (Event n)} {s₁ : State n}
    (hrun₁ : (machine n capacity hcap).RunIf AllocationsSucceed tr₁ s₁) {tr : List (Event n)}
    {s : State n} (h : ((machine n capacity hcap).startAt s₁).RunIf AllocationsSucceed tr s) :
    s₁.shared.nextSubscribe ≤ s.shared.nextSubscribe := by
  refine h.induction (I := fun _ s => s₁.shared.nextSubscribe ≤ s.shared.nextSubscribe) le_rfl ?_
  intro tr s a s' e hmid hle hK hnext
  exact hle.trans (nextSubscribe_le_of_next (hrun₁.trans hmid) hK hnext)

/-- A proxy of a subscription keeps its id in a run. -/
theorem proxyId_of_run {tr₁ : List (Event n)} {s₁ : State n}
    (hrun₁ : (machine n capacity hcap).RunIf AllocationsSucceed tr₁ s₁) {k x : Nat}
    (howned : Owned tr₁ k x) {tr : List (Event n)} {s : State n}
    (h : ((machine n capacity hcap).startAt s₁).RunIf AllocationsSucceed tr s) :
    (s.shared.proxy x).id = (s₁.shared.proxy x).id := by
  refine h.induction (I := fun _ s => (s.shared.proxy x).id = (s₁.shared.proxy x).id) rfl ?_
  intro tr s a s' e hmid hid hK hnext
  have hrun := hrun₁.trans hmid
  rcases next_cases hnext with ⟨b, pool, t, pc, e', -, -, -, -, -, rfl⟩ |
      ⟨t, move, sh, pc, rfl, hf, rfl⟩ | ⟨t, -, rfl⟩
  · exact hid
  · have hstep := threadFunction_step hf (by rintro rfl; exact hK) (by rintro rfl; exact hK)
      (onFailurePath_of_run hrun t)
    have hx := ((pointerInv_of_run hrun).owned k x howned.append).2
    exact ((hstep.objectStep (fresh_of_run hrun _ le_rfl).2).frame.2.1.2 x hx).1.trans hid
  · exact hid

/-- What the call of an unsubscribe does next. It can go on or waits for a mutex that another
thread holds. None of its steps follows a pointer to a freed object, each of them touches what
belongs to the subscription only and brings the call closer to its end, and the last one returns
0. When the mutexes are free it comes to its end, and then the proxy alone is gone from the list
of its channel. -/
structure GoesOn (s : State n) (t : Tid n) (k x : Nat) (u : UnsubscribePc) : Prop where
  progress : (∃ s' e, next s (.thread t .go) = some (s', e)) ∨
    ∃ m t', t' ≠ t ∧ Locks.lockOf s t = some m ∧ mutexHolder s m = some t'
  step : ∀ move s' e, move ≠ .fail → next s (.thread t move) = some (s', e) →
    s'.faulted t = false ∧ OwnProxyOnly k x s.shared s'.shared ∧
      ((∃ u', s'.pc t = .unsubscribe k false u' ∧ stepsLeft u = stepsLeft u' + 1 ∧ e = none) ∨
        (s'.pc t = .idle ∧ stepsLeft u = 1 ∧ e = some (.unsubscribed t k 0)))
  completes : (∀ m t', OwnMutex s.shared x m → mutexHolder s m = some t' → t' = t) →
    ∃ s', (Machine.mk s next).RunIf (OnlyGoes t) [.unsubscribed t k 0] s' ∧
      OwnProxyOnly k x s.shared s'.shared ∧
      (s'.shared.channel (s.shared.proxy x).channel).subscriberProxies =
        (s.shared.channel (s.shared.proxy x).channel).subscriberProxies.erase x

/-- A call that is not disturbed goes on. -/
theorem InCall.goesOn {tr : List (Event n)} {s : State n} {t : Tid n} {k x : Nat}
    {u : UnsubscribePc} (h : InCall tr s t k x u)
    (hrun : (machine n capacity hcap).RunIf AllocationsSucceed tr s)
    (hbound : s.shared.nextSubscribe < 2 ^ 64) : GoesOn s t k x u := by
  obtain ⟨hinv, hl⟩ := listedInv_of_bound hrun hbound
  refine ⟨?_, ?_, ?_⟩
  · rcases h.progress hinv hl (unlocked_of_run hrun) (inboxMutexInv_of_run hrun) with
      ⟨o, ho⟩ | ⟨m, t', hne, -, hlock, hholder⟩
    · obtain ⟨sh, r, -, rfl⟩ := h.ownStep hinv hl (by simp) ho
      exact Or.inl ⟨_, _, h.next_eq ho⟩
    · exact Or.inr ⟨m, t', hne, hlock, hholder⟩
  · intro move s' e hmove hnext
    simp only [next, Option.ite_none_left_eq_some, Option.map_eq_some_iff, h.pc] at hnext
    obtain ⟨-, o, ho, hs⟩ := hnext
    obtain ⟨sh, r, hstep, rfl⟩ := h.ownStep hinv hl hmove ho
    obtain ⟨rfl, rfl⟩ := Prod.mk.inj hs
    refine ⟨h.faulted, hstep.ownProxyOnly (h.channel hl) hinv.list.nodup, ?_⟩
    cases r with
    | some u' => exact Or.inl ⟨u', Function.update_self .., hstep.stepsLeft, rfl⟩
    | none =>
        refine Or.inr ⟨Function.update_self .., ?_, rfl⟩
        cases hstep
        rfl
  · intro hfree
    obtain ⟨s', hrest, hframe, hunlisted⟩ := h.completes hrun hbound hfree
    refine ⟨s', hrest, hframe, ?_⟩
    rcases hframe.list with hsame | herase
    · have hgone := hunlisted (s.shared.proxy x).channel
      rw [hsame] at hgone ⊢
      exact (List.erase_of_not_mem hgone).symm
    · exact herase

/-- An unsubscribe removes exactly its own proxy. Take a call of `subscription_unsubscribe` on an
active subscription in any state of a run without failing allocations and with fewer than 2^64
subscribes, while no other call unsubscribes or frees this subscription. The subscription has one
proxy, which is listed once, in its own channel. The call goes on until it returns 0, whatever the
other threads do. After the return nothing is ever put into the inbox of the proxy, and no other
subscription gets the id. -/
theorem unsubscribe_removes_own_proxy {tr₀ : List (Event n)} {s₀ s₁ : State n} {c k : Nat}
    (h₀ : (machine n capacity hcap).RunIf AllocationsSucceed tr₀ s₀)
    (hactive : (s₀.shared.subscription k).active = true)
    (halone : ∀ t, unsubscribing (s₀.pc t) ≠ some k)
    (hcall : next s₀ (.thread (.client c) (.callUnsubscribe k)) =
      some (s₁, some (.unsubscribeCall (.client c) k))) {tr : List (Event n)} {s : State n}
    (h : ((machine n capacity hcap).startAt s₁).RunIf (AloneWith k) tr s)
    (hbound : s.shared.nextSubscribe < 2 ^ 64) :
    ∃ x, Owned tr₀ k x ∧
      (∀ ch, (s₀.shared.channel ch).subscriberProxies.count x =
        if ch = (s₀.shared.proxy x).channel then 1 else 0) ∧
      (((∀ t code, .unsubscribed t k code ∉ tr) ∧
          ∃ u, s.pc (.client c) = .unsubscribe k false u ∧ GoesOn s (.client c) k x u) ∨
        (.unsubscribed (.client c) k 0 ∈ tr ∧
          (∀ t code, .unsubscribed t k code ∈ tr → t = .client c ∧ code = 0) ∧
          ∀ tr' s', ((machine n capacity hcap).startAt s).RunIf AllocationsSucceed tr' s' →
            s'.shared.nextSubscribe < 2 ^ 64 →
              Gone (s₀.shared.subscription k).id k x tr' s')) := by
  have hrun₁ := h₀.snoc (show AllocationsSucceed s₀ (.thread (.client c) (.callUnsubscribe k))
    from trivial) hcall
  have hmid : ((machine n capacity hcap).startAt s₁).RunIf AllocationsSucceed tr s :=
    h.mono fun _ _ hK => hK.1
  have hle₁ : s₀.shared.nextSubscribe ≤ s₁.shared.nextSubscribe :=
    nextSubscribe_le_of_next h₀ (show AllocationsSucceed s₀ (.thread (.client c)
      (.callUnsubscribe k)) from trivial) hcall
  have hle := nextSubscribe_le_of_run hrun₁ hmid
  have hbound₀ := (hle₁.trans hle).trans_lt hbound
  obtain ⟨hinv, -⟩ := listedInv_of_bound h₀ hbound₀
  obtain ⟨x, howned, hsame, hlisted, hin⟩ := inCall_of_call h₀ hbound₀ hactive halone hcall
  refine ⟨x, howned, ?_, ?_⟩
  · intro ch
    by_cases hch : ch = (s₀.shared.proxy x).channel
    · rw [if_pos hch, hch]
      exact List.count_eq_one_of_mem (hinv.list.nodup _) hlisted
    · rw [if_neg hch, List.count_eq_zero]
      exact fun hmem => hch (hinv.list.home ch x hmem).symm
  · have hrun := hrun₁.trans hmid
    rcases phase_of_run hrun₁ hin h hbound with ⟨⟨u, hcall'⟩, hnot⟩ |
        ⟨hunlisted, -, hret, honly⟩
    · exact Or.inl ⟨hnot, u, hcall'.pc, hcall'.goesOn hrun hbound⟩
    · refine Or.inr ⟨hret, honly, ?_⟩
      intro tr' s' h' hbound'
      have hgone := (gone_of_run hrun howned.append.append hunlisted h' hbound').1
      rwa [proxyId_of_run hrun₁ howned.append hmid, hsame, ← hinv.id_eq howned] at hgone

end

/-- The name of a channel. -/
def nameC : CString := .ofBuffer [99]

/-- A client subscribes twice to one channel. -/
def twoSubscribes : List (Action 1) :=
  .thread (.client 0) (.callSubscribe nameC) :: List.replicate 10 (.thread (.client 0) .go) ++
    .thread (.client 0) (.callSubscribe nameC) :: List.replicate 8 (.thread (.client 0) .go)

/-- The first of two subscriptions of one channel is unsubscribed: the call returns 0, and no
later run puts a message into the inbox of its proxy. -/
theorem unsubscribe_removes_own_proxy_first :
    ∃ tr₀ s₀ s₁ s, (machine 1 1 (by decide)).RunIf AllocationsSucceed tr₀ s₀ ∧
      (s₀.shared.channel 0).subscriberProxies = [0, 1] ∧
      next s₀ (.thread (.client 0) (.callUnsubscribe 0)) =
        some (s₁, some (.unsubscribeCall (.client 0) 0)) ∧
      ((machine 1 1 (by decide)).startAt s₁).RunIf (AloneWith 0)
        [.unsubscribed (.client 0) 0 0] s ∧
      ∀ tr' s', ((machine 1 1 (by decide)).startAt s).RunIf AllocationsSucceed tr' s' →
        s'.shared.nextSubscribe < 2 ^ 64 → ∀ t msg, .put t 0 msg ∉ tr' := by
  obtain ⟨tr₀, s₀, s₁, e, tr, s, h₀, -, hcall, h, hp⟩ :=
    Machine.runIf_step_of_exec (M := machine 1 1 (by decide))
      (K := fun s a => AllocationsSucceed s a ∧ OnlyClient 0 s a) (C := AloneWith 0)
      twoSubscribes (.thread (.client 0) (.callUnsubscribe 0))
      (List.replicate 20 (.thread (.client 0) .go))
      (fun tr₀ s₀ e tr s => decide (.subscribed (.client 0) 0 0 nameC ∈ tr₀ ∧
        (s₀.shared.subscription 0).active = true ∧ s₀.pc (.client 0) = .idle ∧
        (s₀.shared.channel 0).subscriberProxies = [0, 1] ∧
        e = some (.unsubscribeCall (.client 0) 0) ∧ tr = [.unsubscribed (.client 0) 0 0] ∧
        s.shared.nextSubscribe < 2 ^ 64))
      (by decide +kernel)
  obtain ⟨hsub, hactive, hidle, hlist, rfl, rfl, hbound⟩ := of_decide_eq_true hp
  have hsucceed : (machine 1 1 (by decide)).RunIf AllocationsSucceed tr₀ s₀ :=
    h₀.mono fun _ _ hK => hK.1
  have halone : ∀ t, unsubscribing (s₀.pc t) ≠ some 0 := by
    intro t
    by_cases ht : t = .client 0
    · rw [ht, hidle]
      exact fun heq => (by cases heq)
    · rw [idle_of_onlyClient (h₀.mono fun _ _ hK => hK.2) t ht]
      exact fun heq => (by cases heq)
  obtain ⟨x, howned, -, hend⟩ :=
    unsubscribe_removes_own_proxy hsucceed hactive halone hcall h hbound
  obtain rfl : x = 0 :=
    ((pointerInv_of_run hsucceed).unique 0 0 x 0 howned ⟨_, _, hsub⟩).mp rfl
  rcases hend with ⟨hnot, -⟩ | ⟨-, -, hgone⟩
  · exact absurd (List.mem_singleton_self _) (hnot _ _)
  · exact ⟨tr₀, s₀, s₁, s, hsucceed, hlist, hcall, h,
      fun tr' s' hrun' hbound' => (hgone tr' s' hrun' hbound').put⟩

/-- Two clients unsubscribe one active subscription. The second one finds the subscription active
and takes it apart while the first one is inside its call, which then follows the cleared
pointer. -/
theorem two_unsubscribes_fault :
    ∃ tr₀ s₀ s₁ e tr s, (machine 1 1 (by decide)).RunIf AllocationsSucceed tr₀ s₀ ∧
      (s₀.shared.subscription 0).active = true ∧
      next s₀ (.thread (.client 1) (.callUnsubscribe 0)) = some (s₁, e) ∧
      ((machine 1 1 (by decide)).startAt s₁).RunIf AllocationsSucceed tr s ∧
      s.shared.nextSubscribe < 2 ^ 64 ∧ .unsubscribed (.client 0) 0 0 ∈ tr ∧
      s.faulted (.client 1) = true := by
  obtain ⟨tr₀, s₀, s₁, e, tr, s, h₀, -, hcall, h, hp⟩ :=
    Machine.runIf_step_of_exec (M := machine 1 1 (by decide)) (K := AllocationsSucceed)
      (C := AllocationsSucceed) twoSubscribes (.thread (.client 1) (.callUnsubscribe 0))
      (List.replicate 2 (.thread (.client 1) .go) ++
        .thread (.client 0) (.callUnsubscribe 0) ::
        List.replicate 20 (.thread (.client 0) .go) ++ [.thread (.client 1) .go])
      (fun _ s₀ _ tr s => decide ((s₀.shared.subscription 0).active = true ∧
        s.shared.nextSubscribe < 2 ^ 64 ∧ .unsubscribed (.client 0) 0 0 ∈ tr ∧
        s.faulted (.client 1) = true))
      (by decide +kernel)
  obtain ⟨hactive, hbound, hret, hfaulted⟩ := of_decide_eq_true hp
  exact ⟨tr₀, s₀, s₁, e, tr, s, h₀, hactive, hcall, h, hbound, hret, hfaulted⟩

end Miez.Proofs.MessageBroker
