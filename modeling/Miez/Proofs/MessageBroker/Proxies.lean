import Miez.Proofs.MessageBroker.Channels

/-!
# `Miez.Proofs.MessageBroker.Proxies`: which proxies are in the list of a channel

A subscribe makes a proxy, puts it at the end of the list of its channel and hands out a
subscription that points to it. An unsubscribe looks for the proxy in the list by the
subscriber id and takes the first match out. `ListInv` keeps the lists, `OwnerInv` the relation
between subscriptions and proxies, and `TargetInv` what an unsubscribe has found.
-/

set_option autoImplicit false

namespace Miez.Proofs.MessageBroker

open Miez.Lib
open Miez.MessageBroker
open Miez.ThreadPool (Tid)

section
variable {n : Nat} {capacity : UInt64} {hcap : capacity ≠ 0}

/-! ### The four steps that change the lists and the objects -/

/-- The name, the subscriber id and the new proxy that a subscribe has in hand. -/
def handOf : Pc → Option (CString × UInt64 × Nat)
  | .subscribe name id pc =>
      match pc with
      | .lockChannel _ x | .insertLast _ x | .unlockChannel _ x | .newSubscription x =>
          some (name, id, x)
      | _ => none
  | _ => none

/-- The channel and the proxy of a subscribe that has still to put it into the list. -/
def notListed : Pc → Option (Nat × Nat)
  | .subscribe _ _ (.lockChannel ch x) | .subscribe _ _ (.insertLast ch x) => some (ch, x)
  | _ => none

/-- The two states have the same lists and the same proxies and subscriptions, up to inboxes,
flags and pointers set to NULL. -/
structure SameObjects (sh sh' : Shared n) : Prop where
  lists : ∀ ch, (sh'.channel ch).subscriberProxies = (sh.channel ch).subscriberProxies
  nextProxy : sh'.nextProxy = sh.nextProxy
  proxyId : ∀ x, (sh'.proxy x).id = (sh.proxy x).id
  proxyChannel : ∀ x, (sh'.proxy x).channel = (sh.proxy x).channel
  nextSubscription : sh'.nextSubscription = sh.nextSubscription
  subscriptionId : ∀ k, (sh'.subscription k).id = (sh.subscription k).id
  pointer : ∀ k x, (sh'.subscription k).proxy = some x → (sh.subscription k).proxy = some x

/-- The event is the return of a successful subscribe. -/
def isSubscribed : Event n → Bool
  | .subscribed _ _ _ _ => true
  | _ => false

/-- What a step of a thread does to the lists and the objects. -/
inductive ObjectStep (t : Tid n) (sh : Shared n) (pc : Pc) (sh' : Shared n) (pc' : Pc)
    (e : Option (Event n)) : Prop where
  | newProxy (name : CString) (id : UInt64) (ch : Nat)
      (hpc : pc = .subscribe name id (.newProxy ch)) (hsh : sh' = sh.newProxy id ch)
      (hpc' : pc' = .subscribe name id (.lockChannel ch sh.nextProxy)) (he : e = none)
  | insertLast (name : CString) (id : UInt64) (ch x : Nat)
      (hpc : pc = .subscribe name id (.insertLast ch x))
      (hsh : sh' = sh.setChannel ch { sh.channel ch with
        subscriberProxies := (sh.channel ch).subscriberProxies ++ [x] })
      (hpc' : pc' = .subscribe name id (.unlockChannel ch x)) (he : e = none)
  | unlink (k : Nat) (thenFree : Bool) (ch i : Nat)
      (hpc : pc = .unsubscribe k thenFree (.unlink ch i))
      (hsh : sh' = sh.setChannel ch { sh.channel ch with
        subscriberProxies := (sh.channel ch).subscriberProxies.eraseIdx i })
      (hpc' : pc' = .unsubscribe k thenFree (.unlockChannel ch)) (he : e = none)
  | newSubscription (name : CString) (id : UInt64) (x : Nat)
      (hpc : pc = .subscribe name id (.newSubscription x))
      (hsh : sh' = sh.newSubscription id name x) (hpc' : pc' = .idle)
      (he : e = some (.subscribed t sh.nextSubscription x name))
  | other (hsame : SameObjects sh sh') (hhand : handOf pc' = handOf pc)
      (hlisted : notListed pc' = notListed pc) (he : ∀ x, e = some x → isSubscribed x = false)

/-- Nothing changes. -/
theorem SameObjects.refl (sh : Shared n) : SameObjects sh sh :=
  ⟨fun _ => rfl, rfl, fun _ => rfl, fun _ => rfl, rfl, fun _ => rfl, fun _ _ h => h⟩

/-- A write to a channel that leaves its list alone. -/
theorem SameObjects.setChannel {sh : Shared n} {ch : Nat} {c : Channel n}
    (hc : c.subscriberProxies = (sh.channel ch).subscriberProxies) :
    SameObjects sh (sh.setChannel ch c) := by
  refine ⟨?_, rfl, fun _ => rfl, fun _ => rfl, rfl, fun _ => rfl, fun _ _ h => h⟩
  intro ch'
  by_cases hch : ch' = ch
  · subst hch
    simpa [Shared.setChannel] using hc
  · simp [Shared.setChannel, Function.update_of_ne hch]

/-- A write to a proxy that leaves its id and its channel alone. -/
theorem SameObjects.setProxy {sh : Shared n} {x : Nat} {p : SubscriberProxy n}
    (hid : p.id = (sh.proxy x).id) (hchannel : p.channel = (sh.proxy x).channel) :
    SameObjects sh (sh.setProxy x p) := by
  refine ⟨fun _ => rfl, rfl, ?_, ?_, rfl, fun _ => rfl, fun _ _ h => h⟩ <;> intro x'
  · by_cases hx : x' = x
    · subst hx
      simpa [Shared.setProxy] using hid
    · simp [Shared.setProxy, Function.update_of_ne hx]
  · by_cases hx : x' = x
    · subst hx
      simpa [Shared.setProxy] using hchannel
    · simp [Shared.setProxy, Function.update_of_ne hx]

/-- A write to a subscription that leaves its id alone and its pointer alone or NULL. -/
theorem SameObjects.setSubscription {sh : Shared n} {k : Nat} {sub : Subscription}
    (hid : sub.id = (sh.subscription k).id)
    (hproxy : ∀ x, sub.proxy = some x → (sh.subscription k).proxy = some x) :
    SameObjects sh (sh.setSubscription k sub) := by
  refine ⟨fun _ => rfl, rfl, fun _ => rfl, fun _ => rfl, rfl, ?_, ?_⟩
  · intro k'
    by_cases hk : k' = k
    · subst hk
      simpa [Shared.setSubscription] using hid
    · simp [Shared.setSubscription, Function.update_of_ne hk]
  · intro k' x
    by_cases hk : k' = k
    · subst hk
      simpa [Shared.setSubscription] using hproxy x
    · simp [Shared.setSubscription, Function.update_of_ne hk]

/-- The steps of the get-or-create do not touch the lists and the objects: a new channel
object is empty, as it was before it existed. -/
theorem GetChannelStep.sameObjects {t : Tid n} {name : CString} {sh sh' : Shared n}
    {g : GetChannelPc} {r : GetChannelResult} (h : GetChannelStep t name sh g sh' r)
    (hfresh : (sh.channel sh.nextChannel).subscriberProxies = []) : SameObjects sh sh' := by
  cases h with
  | new =>
      have hset : SameObjects sh (sh.setChannel sh.nextChannel ⟨name, [], none, false⟩) :=
        .setChannel hfresh.symm
      exact ⟨hset.lists, rfl, fun _ => rfl, fun _ => rfl, rfl, fun _ => rfl, fun _ _ h => h⟩
  | _ => exact ⟨fun _ => rfl, rfl, fun _ => rfl, fun _ => rfl, rfl, fun _ => rfl, fun _ _ h => h⟩

/-- A step of a thread is one of the steps of `ObjectStep`. -/
theorem ThreadStep.objectStep {t : Tid n} {sh sh' : Shared n} {pc pc' : Pc}
    {e : Option (Event n)} (h : ThreadStep t sh pc sh' pc' e)
    (hfresh : (sh.channel sh.nextChannel).subscriberProxies = []) :
    ObjectStep t sh pc sh' pc' e := by
  have hnone : ∀ x : Event n, none = some x → isSubscribed x = false := by
    intro x hx
    cases hx
  -- The steps with a written channel, proxy or subscription, and the steps that only read.
  have hchannel : ∀ ch c, c.subscriberProxies = (sh.channel ch).subscriberProxies →
      SameObjects sh (sh.setChannel ch c) := fun _ _ hc => .setChannel hc
  have hproxy : ∀ x p, p.id = (sh.proxy x).id → p.channel = (sh.proxy x).channel →
      SameObjects sh (sh.setProxy x p) := fun _ _ hid hch => .setProxy hid hch
  have hclear : ∀ k, SameObjects sh
      (sh.setSubscription k { sh.subscription k with proxy := none }) :=
    fun _ => .setSubscription rfl (by rintro x ⟨⟩)
  cases h with
  | newProxy ch => exact .newProxy _ _ ch rfl rfl rfl rfl
  | insertLast ch x => exact .insertLast _ _ ch x rfl rfl rfl rfl
  | unlink ch i => exact .unlink _ _ ch i rfl rfl rfl rfl
  | newSubscription x => exact .newSubscription _ _ x rfl rfl rfl rfl
  | taskMore hg => exact .other (hg.sameObjects hfresh) rfl rfl hnone
  | taskFound hg => exact .other (hg.sameObjects hfresh) rfl rfl hnone
  | subscribeMore hg => exact .other (hg.sameObjects hfresh) rfl rfl hnone
  | subscribeFound hg => exact .other (hg.sameObjects hfresh) rfl rfl hnone
  | fanout ch hfree =>
      exact .other (hchannel ch _ (by rfl)) rfl rfl (by rintro x ⟨⟩; rfl)
  | taskUnlock ch => exact .other (hchannel ch _ (by rfl)) rfl rfl hnone
  | subscribeLock ch x hfree => exact .other (hchannel ch _ (by rfl)) rfl rfl hnone
  | subscribeUnlock ch x => exact .other (hchannel ch _ (by rfl)) rfl rfl hnone
  | unsubscribeLockChannel ch hfree => exact .other (hchannel ch _ (by rfl)) rfl rfl hnone
  | unsubscribeUnlockChannel ch => exact .other (hchannel ch _ (by rfl)) rfl rfl hnone
  | put ch i x => exact .other (hproxy x _ (by rfl) (by rfl)) rfl rfl (by rintro y ⟨⟩; rfl)
  | taskLockInbox ch i x hfree => exact .other (hproxy x _ (by rfl) (by rfl)) rfl rfl hnone
  | taskSignal ch i x waiting => exact .other (hproxy x _ (by rfl) (by rfl)) rfl rfl hnone
  | taskUnlockInbox ch i x => exact .other (hproxy x _ (by rfl) (by rfl)) rfl rfl hnone
  | deactivate x hx => exact .other (hproxy x _ (by rfl) (by rfl)) rfl rfl hnone
  | unsubscribeInbox x p u u' hp hinbox hu =>
      exact .other (hproxy x p hp.id hp.channel) rfl rfl hnone
  | freeDeactivate ch i x => exact .other (hproxy x _ (by rfl) (by rfl)) rfl rfl hnone
  | freeInbox ch i x p f f' hp hinbox hf =>
      exact .other (hproxy x p hp.id hp.channel) rfl rfl hnone
  | freeRelease ch i x => exact .other (hproxy x _ (by rfl) (by rfl)) rfl rfl hnone
  | got x => exact .other (hproxy x _ (by rfl) (by rfl)) rfl rfl (by rintro y ⟨⟩; rfl)
  | receiveInbox x p hp hinbox hret =>
      have hsame := hproxy x p hp.id hp.channel
      rcases hret with ⟨r', rfl, rfl⟩ | ⟨rfl, rfl⟩
      · exact .other hsame rfl rfl hnone
      · exact .other hsame rfl rfl (by rintro y ⟨⟩; rfl)
  | clearActive => exact .other (.setSubscription (by rfl) fun x hx => hx) rfl rfl hnone
  | clearProxy hret =>
      rcases hret with ⟨rfl, rfl⟩ | ⟨rfl, rfl⟩
      · exact .other (hclear _) rfl rfl hnone
      · exact .other (hclear _) rfl rfl (by rintro y ⟨⟩; rfl)
  | release k =>
      exact .other (.setSubscription (by rfl) fun x hx => hx) rfl rfl (by rintro y ⟨⟩; rfl)
  | unsubscribeInactive hret =>
      rcases hret with ⟨rfl, rfl⟩ | ⟨rfl, rfl⟩
      · exact .other (.refl sh) rfl rfl hnone
      · exact .other (.refl sh) rfl rfl (by rintro y ⟨⟩; rfl)
  | receiveRead hret =>
      rcases hret with ⟨r', rfl, rfl⟩ | ⟨rfl, rfl⟩
      · exact .other (.refl sh) rfl rfl hnone
      · exact .other (.refl sh) rfl rfl (by rintro y ⟨⟩; rfl)
  | pendingRead hret =>
      rcases hret with ⟨rfl, rfl⟩ | ⟨rfl, count, rfl⟩
      · exact .other (.refl sh) rfl rfl hnone
      · exact .other (.refl sh) rfl rfl (by rintro y ⟨⟩; rfl)
  | callPublish c ht name content =>
      exact .other ⟨fun _ => rfl, rfl, fun _ => rfl, fun _ => rfl, rfl, fun _ => rfl,
        fun _ _ h => h⟩ rfl rfl (by rintro y ⟨⟩; rfl)
  | callSubscribe c ht name =>
      exact .other ⟨fun _ => rfl, rfl, fun _ => rfl, fun _ => rfl, rfl, fun _ => rfl,
        fun _ _ h => h⟩ rfl rfl (by rintro y ⟨⟩; rfl)
  | callUnsubscribe c ht k thenFree hk => exact .other (.refl sh) rfl rfl (by rintro y ⟨⟩; rfl)
  | unsubscribeLockChannels hfree =>
      exact .other ⟨fun _ => rfl, rfl, fun _ => rfl, fun _ => rfl, rfl, fun _ => rfl,
        fun _ _ h => h⟩ rfl rfl hnone
  | unsubscribeUnlockChannels =>
      exact .other ⟨fun _ => rfl, rfl, fun _ => rfl, fun _ => rfl, rfl, fun _ => rfl,
        fun _ _ h => h⟩ rfl rfl hnone
  | _ => exact .other (.refl sh) rfl rfl hnone

/-- A program point of `inCall` has no proxy in hand. -/
theorem handOf_of_inCall {pc : Pc} (h : inCall pc = true) :
    handOf pc = none ∧ notListed pc = none := by
  rcases inCall_cases h with rfl | ⟨arg, rfl⟩ | rfl | ⟨arg, rfl⟩ <;> exact ⟨rfl, rfl⟩

/-! ### The lists -/

/-- The lists hold proxies of their own channel, each of them once, and a proxy that a
subscribe has still to insert is in no list. A new proxy is in the hands of one thread. -/
structure ListInv (s : State n) : Prop where
  bound : ∀ ch x, x ∈ (s.shared.channel ch).subscriberProxies → x < s.shared.nextProxy
  home : ∀ ch x, x ∈ (s.shared.channel ch).subscriberProxies → (s.shared.proxy x).channel = ch
  nodup : ∀ ch, (s.shared.channel ch).subscriberProxies.Nodup
  hand : ∀ t name id x, handOf (s.pc t) = some (name, id, x) → x < s.shared.nextProxy
  handUnique : ∀ t t' name id name' id' x, handOf (s.pc t) = some (name, id, x) →
    handOf (s.pc t') = some (name', id', x) → t = t'
  unlisted : ∀ t ch x, notListed (s.pc t) = some (ch, x) →
    (∀ ch', x ∉ (s.shared.channel ch').subscriberProxies) ∧ (s.shared.proxy x).channel = ch

/-- The proxy that a subscribe has still to insert is the one it has in hand. -/
theorem handOf_of_notListed {pc : Pc} {ch x : Nat} (h : notListed pc = some (ch, x)) :
    ∃ name id, handOf pc = some (name, id, x) := by
  unfold notListed at h
  split at h
  · obtain ⟨-, rfl⟩ : _ ∧ _ = x := by simpa using h
    exact ⟨_, _, rfl⟩
  · obtain ⟨-, rfl⟩ : _ ∧ _ = x := by simpa using h
    exact ⟨_, _, rfl⟩
  · cases h

/-- The list of a channel after a write to a channel. -/
theorem setChannel_channel (sh : Shared n) (ch : Nat) (c : Channel n) (ch' : Nat) :
    (sh.setChannel ch c).channel ch' = if ch' = ch then c else sh.channel ch' :=
  Function.update_apply _ _ _ _

/-- The proxy objects after a write to a proxy. -/
theorem setProxy_proxy (sh : Shared n) (x : Nat) (p : SubscriberProxy n) (x' : Nat) :
    (sh.setProxy x p).proxy x' = if x' = x then p else sh.proxy x' :=
  Function.update_apply _ _ _ _

/-- The program point `pc` has nothing in hand that `pc₀` has not. -/
structure HandLe (pc pc₀ : Pc) : Prop where
  hand : ∀ r, handOf pc = some r → handOf pc₀ = some r
  notListed : ∀ r, MessageBroker.notListed pc = some r → MessageBroker.notListed pc₀ = some r

/-- A program point has in hand what it has in hand. -/
theorem HandLe.refl (pc : Pc) : HandLe pc pc := ⟨fun _ h => h, fun _ h => h⟩

/-- A program point with empty hands. -/
theorem HandLe.of_none {pc pc₀ : Pc} (hhand : handOf pc = none)
    (hlisted : MessageBroker.notListed pc = none) : HandLe pc pc₀ := by
  constructor
  · intro r hr
    rw [hhand] at hr
    cases hr
  · intro r hr
    rw [hlisted] at hr
    cases hr

/-- `ListInv` is kept when lists and hands only shrink. -/
theorem ListInv.shrink {s s' : State n} (hinv : ListInv s)
    (hlists : ∀ ch, List.Sublist (s'.shared.channel ch).subscriberProxies
      (s.shared.channel ch).subscriberProxies)
    (hnext : s'.shared.nextProxy = s.shared.nextProxy)
    (hchannel : ∀ x, (s'.shared.proxy x).channel = (s.shared.proxy x).channel)
    (hhand : ∀ t, HandLe (s'.pc t) (s.pc t)) : ListInv s' := by
  refine ⟨?_, ?_, ?_, ?_, ?_, ?_⟩
  · intro ch x hx
    rw [hnext]
    exact hinv.bound ch x ((hlists ch).subset hx)
  · intro ch x hx
    rw [hchannel]
    exact hinv.home ch x ((hlists ch).subset hx)
  · intro ch
    exact (hinv.nodup ch).sublist (hlists ch)
  · intro t name id x hx
    rw [hnext]
    exact hinv.hand t name id x ((hhand t).hand _ hx)
  · intro t t' name id name' id' x hx hx'
    exact hinv.handUnique t t' _ _ _ _ x ((hhand t).hand _ hx) ((hhand t').hand _ hx')
  · intro t ch x hx
    obtain ⟨hnot, hch⟩ := hinv.unlisted t ch x ((hhand t).notListed _ hx)
    exact ⟨fun ch' hin => hnot ch' ((hlists ch').subset hin), (hchannel x).trans hch⟩

/-- A step of a thread keeps `ListInv`. -/
theorem listInv_thread {s : State n} (hinv : ListInv s) {t : Tid n} {sh : Shared n} {pc : Pc}
    {e : Option (Event n)} (hstep : ObjectStep t s.shared (s.pc t) sh pc e) :
    ListInv ⟨s.pool, sh, Function.update s.pc t pc, s.faulted⟩ := by
  cases hstep with
  | newProxy name id ch hpc hsh hpc' he =>
      subst hsh hpc'
      have hold : ∀ x, x < s.shared.nextProxy →
          ((s.shared.newProxy id ch).proxy x) = s.shared.proxy x := by
        intro x hx
        exact (setProxy_proxy _ _ _ _).trans (if_neg (Nat.ne_of_lt hx))
      refine ⟨?_, ?_, hinv.nodup, ?_, ?_, ?_⟩
      · intro ch' x hx
        exact Nat.lt_succ_of_lt (hinv.bound ch' x hx)
      · intro ch' x hx
        show ((s.shared.newProxy id ch).proxy x).channel = ch'
        rw [hold x (hinv.bound ch' x hx)]
        exact hinv.home ch' x hx
      · refine forall_update (P := fun _ pc => ∀ name id' x, handOf pc = some (name, id', x) →
          x < s.shared.nextProxy + 1) ?_ ?_
        · intro name' id' x hx
          obtain ⟨-, -, rfl⟩ : name = name' ∧ id = id' ∧ s.shared.nextProxy = x := by
            simpa [handOf] using hx
          exact Nat.lt_succ_self _
        · intro t' _ name' id' x hx
          exact Nat.lt_succ_of_lt (hinv.hand t' name' id' x hx)
      · -- The new proxy is in no other hand, since the other hands hold older ones.
        have hnew : ∀ t' name' id', t' ≠ t →
            handOf (s.pc t') ≠ some (name', id', s.shared.nextProxy) := by
          intro t' name' id' _ hx
          exact absurd (hinv.hand t' name' id' _ hx) (Nat.lt_irrefl _)
        intro t₁ t₂ name₁ id₁ name₂ id₂ x h₁ h₂
        by_cases ht₁ : t₁ = t <;> by_cases ht₂ : t₂ = t
        · rw [ht₁, ht₂]
        · subst ht₁
          simp only [Function.update_self, Function.update_of_ne ht₂] at h₁ h₂
          obtain ⟨-, -, rfl⟩ : name = name₁ ∧ id = id₁ ∧ s.shared.nextProxy = x := by
            simpa [handOf] using h₁
          exact absurd h₂ (hnew t₂ _ _ ht₂)
        · subst ht₂
          simp only [Function.update_self, Function.update_of_ne ht₁] at h₁ h₂
          obtain ⟨-, -, rfl⟩ : name = name₂ ∧ id = id₂ ∧ s.shared.nextProxy = x := by
            simpa [handOf] using h₂
          exact absurd h₁ (hnew t₁ _ _ ht₁)
        · simp only [Function.update_of_ne ht₁, Function.update_of_ne ht₂] at h₁ h₂
          exact hinv.handUnique t₁ t₂ _ _ _ _ x h₁ h₂
      · refine forall_update (P := fun _ pc => ∀ ch₁ x, notListed pc = some (ch₁, x) →
          (∀ ch', x ∉ (s.shared.channel ch').subscriberProxies) ∧
            ((s.shared.newProxy id ch).proxy x).channel = ch₁) ?_ ?_
        · intro ch₁ x hx
          obtain ⟨rfl, rfl⟩ : ch = ch₁ ∧ s.shared.nextProxy = x := by
            simpa [notListed] using hx
          refine ⟨fun ch' hmem => Nat.lt_irrefl _ (hinv.bound ch' _ hmem), ?_⟩
          simp [Shared.newProxy, Shared.setProxy]
        · intro t' _ ch₁ x hx
          obtain ⟨name', id', hhand⟩ := handOf_of_notListed hx
          rw [hold x (hinv.hand t' name' id' x hhand)]
          exact hinv.unlisted t' ch₁ x hx
  | insertLast name id ch x hpc hsh hpc' he =>
      subst hsh hpc'
      have hunlisted := hinv.unlisted t ch x (by rw [hpc]; rfl)
      have hhand : handOf (s.pc t) = some (name, id, x) := by rw [hpc]; rfl
      have hx := hinv.hand t name id x hhand
      -- The members of the lists are the old ones and the new one.
      have hmem : ∀ ch' y, y ∈ ((s.shared.setChannel ch { s.shared.channel ch with
          subscriberProxies := (s.shared.channel ch).subscriberProxies ++ [x] }).channel
            ch').subscriberProxies →
          y ∈ (s.shared.channel ch').subscriberProxies ∨ (ch' = ch ∧ y = x) := by
        intro ch' y hy
        rw [setChannel_channel] at hy
        by_cases hch : ch' = ch
        · subst hch
          rw [if_pos rfl] at hy
          rcases List.mem_append.mp hy with hy | hy
          · exact Or.inl hy
          · exact Or.inr ⟨rfl, List.mem_singleton.mp hy⟩
        · rw [if_neg hch] at hy
          exact Or.inl hy
      refine ⟨?_, ?_, ?_, ?_, ?_, ?_⟩
      · intro ch' y hy
        rcases hmem ch' y hy with hy | ⟨-, rfl⟩
        · exact hinv.bound ch' y hy
        · exact hx
      · intro ch' y hy
        rcases hmem ch' y hy with hy | ⟨rfl, rfl⟩
        · exact hinv.home ch' y hy
        · exact hunlisted.2
      · intro ch'
        show (((s.shared.setChannel ch _).channel ch').subscriberProxies).Nodup
        rw [setChannel_channel]
        by_cases hch : ch' = ch
        · subst hch
          rw [if_pos rfl]
          refine List.nodup_append.mpr ⟨hinv.nodup ch', List.nodup_singleton x, ?_⟩
          intro y hy z hz heq
          rw [List.mem_singleton] at hz
          exact hunlisted.1 ch' (hz ▸ heq ▸ hy)
        · rw [if_neg hch]
          exact hinv.nodup ch'
      · refine forall_update (P := fun _ pc => ∀ name id x, handOf pc = some (name, id, x) →
          x < s.shared.nextProxy) ?_ fun t' _ => hinv.hand t'
        intro name' id' y hy
        exact hinv.hand t name' id' y (hhand.trans hy)
      · intro t₁ t₂ name₁ id₁ name₂ id₂ y h₁ h₂
        have hback : ∀ t', handOf (Function.update s.pc t
            (.subscribe name id (.unlockChannel ch x)) t') = handOf (s.pc t') := by
          refine forall_update (P := fun t' pc => handOf pc = handOf (s.pc t')) ?_ fun _ _ => rfl
          exact hhand.symm
        rw [hback] at h₁ h₂
        exact hinv.handUnique t₁ t₂ _ _ _ _ y h₁ h₂
      · refine forall_update (P := fun _ pc => ∀ ch₁ y, notListed pc = some (ch₁, y) →
          (∀ ch', y ∉ ((s.shared.setChannel ch { s.shared.channel ch with
            subscriberProxies := (s.shared.channel ch).subscriberProxies ++ [x] }).channel
              ch').subscriberProxies) ∧ (s.shared.proxy y).channel = ch₁) ?_ ?_
        · intro ch₁ y hy
          cases hy
        · intro t' ht' ch₁ y hy
          obtain ⟨hnot, hch₁⟩ := hinv.unlisted t' ch₁ y hy
          refine ⟨?_, hch₁⟩
          intro ch' hin
          rcases hmem ch' y hin with hin | ⟨-, rfl⟩
          · exact hnot ch' hin
          · obtain ⟨name', id', hhand'⟩ := handOf_of_notListed hy
            exact ht' (hinv.handUnique t' t _ _ _ _ y hhand' hhand)
  | unlink k thenFree ch i hpc hsh hpc' he =>
      subst hsh hpc'
      refine hinv.shrink ?_ rfl (fun _ => rfl) ?_
      · intro ch'
        show List.Sublist ((s.shared.setChannel ch _).channel ch').subscriberProxies _
        rw [setChannel_channel]
        by_cases hch : ch' = ch
        · subst hch
          rw [if_pos rfl]
          exact List.eraseIdx_sublist _ _
        · rw [if_neg hch]
      · exact forall_update (P := fun t' pc => HandLe pc (s.pc t')) (.of_none rfl rfl)
          fun _ _ => .refl _
  | newSubscription name id x hpc hsh hpc' he =>
      subst hsh hpc'
      refine hinv.shrink (fun _ => List.Sublist.refl _) rfl (fun _ => rfl) ?_
      exact forall_update (P := fun t' pc => HandLe pc (s.pc t')) (.of_none rfl rfl)
        fun _ _ => .refl _
  | other hsame hhand hlisted he =>
      refine hinv.shrink ?_ hsame.nextProxy hsame.proxyChannel ?_
      · intro ch
        show List.Sublist (sh.channel ch).subscriberProxies _
        rw [hsame.lists ch]
      · exact forall_update (P := fun t' pc => HandLe pc (s.pc t'))
          ⟨fun r hr => hhand ▸ hr, fun r hr => hlisted ▸ hr⟩ fun _ _ => .refl _

/-- `ListInv` holds in every state of a run. -/
theorem listInv_of_run {tr : List (Event n)} {s : State n}
    (h : (machine n capacity hcap).RunIf AllocationsSucceed tr s) : ListInv s := by
  refine invariant_of_run (I := fun _ s => ListInv s) ?_ ?_ ?_ ?_ h
  · constructor <;> simp [init, handOf, notListed]
  · intro tr s b pool t pc e _ hinv _ _ hpc
    refine hinv.shrink (fun _ => List.Sublist.refl _) rfl (fun _ => rfl) ?_
    exact forall_update (P := fun t' pc => HandLe pc (s.pc t'))
      (.of_none (handOf_of_inCall hpc).1 (handOf_of_inCall hpc).2) fun _ _ => .refl _
  · intro tr s t sh pc e hrun hinv hstep
    exact listInv_thread hinv (hstep.objectStep (fresh_of_run hrun _ le_rfl).2)
  · intro tr s t hinv
    exact hinv.shrink (fun _ => List.Sublist.refl _) rfl (fun _ => rfl) fun _ => .refl _

/-! ### Subscriptions and their proxies -/

/-- `message_broker_subscribe` has handed out the subscription `k` with the proxy `x`. -/
def Owned (tr : List (Event n)) (k x : Nat) : Prop :=
  ∃ t name, .subscribed t k x name ∈ tr

/-- The proxies in the hands of subscribes and the proxies of subscriptions. -/
structure OwnerInv (tr : List (Event n)) (s : State n) : Prop where
  hand : ∀ t name id x, handOf (s.pc t) = some (name, id, x) → (s.shared.proxy x).id = id ∧
    s.shared.channels.get name = some (s.shared.proxy x).channel ∧ ∀ k, ¬ Owned tr k x
  owned : ∀ t k x name, .subscribed t k x name ∈ tr → k < s.shared.nextSubscription ∧
    x < s.shared.nextProxy ∧ (s.shared.subscription k).id = (s.shared.proxy x).id ∧
    s.shared.channels.get name = some (s.shared.proxy x).channel
  owner : ∀ k, k < s.shared.nextSubscription → ∃ x, Owned tr k x
  pointer : ∀ k x, (s.shared.subscription k).proxy = some x → Owned tr k x
  unique : ∀ k k' x x', Owned tr k x → Owned tr k' x' → (k = k' ↔ x = x')

/-- A step that is not the return of a subscribe hands nothing out. -/
theorem subscribed_mem_append {tr : List (Event n)} {e : Option (Event n)}
    (he : ∀ x, e = some x → isSubscribed x = false) {t : Tid n} {k x : Nat} {name : CString}
    (h : .subscribed t k x name ∈ tr ++ e.toList) : .subscribed t k x name ∈ tr := by
  rcases List.mem_append.mp h with h | h
  · exact h
  · have hx := he _ (by simpa using h)
    simp [isSubscribed] at hx

/-- What has been handed out stays so. -/
theorem Owned.append {tr tr' : List (Event n)} {k x : Nat} (h : Owned tr k x) :
    Owned (tr ++ tr') k x := by
  obtain ⟨t, name, hmem⟩ := h
  exact ⟨t, name, List.mem_append_left _ hmem⟩

/-- `OwnerInv` is kept by a step that hands nothing out and keeps the objects. -/
theorem OwnerInv.same {tr : List (Event n)} {s s' : State n} {e : Option (Event n)}
    (hinv : OwnerInv tr s) (he : ∀ x, e = some x → isSubscribed x = false)
    (hget : ∀ name ch, s.shared.channels.get name = some ch →
      s'.shared.channels.get name = some ch)
    (hnextP : s'.shared.nextProxy = s.shared.nextProxy)
    (hnextS : s'.shared.nextSubscription = s.shared.nextSubscription)
    (hid : ∀ x, (s'.shared.proxy x).id = (s.shared.proxy x).id)
    (hchannel : ∀ x, (s'.shared.proxy x).channel = (s.shared.proxy x).channel)
    (hsid : ∀ k, (s'.shared.subscription k).id = (s.shared.subscription k).id)
    (hpointer : ∀ k x, (s'.shared.subscription k).proxy = some x →
      (s.shared.subscription k).proxy = some x)
    (hhand : ∀ t r, handOf (s'.pc t) = some r → handOf (s.pc t) = some r) :
    OwnerInv (tr ++ e.toList) s' := by
  have hback : ∀ k x, Owned (tr ++ e.toList) k x → Owned tr k x := by
    rintro k x ⟨t, name, hmem⟩
    exact ⟨t, name, subscribed_mem_append he hmem⟩
  refine ⟨?_, ?_, ?_, ?_, ?_⟩
  · intro t name id x hx
    obtain ⟨hxid, hxget, hnot⟩ := hinv.hand t name id x (hhand t _ hx)
    rw [hid, hchannel]
    exact ⟨hxid, hget _ _ hxget, fun k hk => hnot k (hback k x hk)⟩
  · intro t k x name hmem
    obtain ⟨hk, hx, hkx, hxget⟩ := hinv.owned t k x name (subscribed_mem_append he hmem)
    rw [hnextS, hnextP, hsid, hid, hchannel]
    exact ⟨hk, hx, hkx, hget _ _ hxget⟩
  · intro k hk
    rw [hnextS] at hk
    obtain ⟨x, hx⟩ := hinv.owner k hk
    exact ⟨x, hx.append⟩
  · intro k x hx
    exact (hinv.pointer k x (hpointer k x hx)).append
  · intro k k' x x' h h'
    exact hinv.unique k k' x x' (hback k x h) (hback k' x' h')

/-- A step of a thread keeps `OwnerInv`. -/
theorem ownerInv_thread {tr : List (Event n)} {s : State n} (hinv : OwnerInv tr s)
    (hlist : ListInv s) (htable : TableInv s) {t : Tid n} {sh : Shared n} {pc : Pc}
    {e : Option (Event n)} (hstep : ThreadStep t s.shared (s.pc t) sh pc e)
    (hobject : ObjectStep t s.shared (s.pc t) sh pc e) :
    OwnerInv (tr ++ e.toList) ⟨s.pool, sh, Function.update s.pc t pc, s.faulted⟩ := by
  have hget : ∀ name ch, s.shared.channels.get name = some ch → sh.channels.get name = some ch :=
    fun _ _ h => hstep.get_mono htable h
  cases hobject with
  | newProxy name id ch hpc hsh hpc' he =>
      subst hsh hpc' he
      have hold : ∀ x, x < s.shared.nextProxy →
          ((s.shared.newProxy id ch).proxy x) = s.shared.proxy x := by
        intro x hx
        exact (setProxy_proxy _ _ _ _).trans (if_neg (Nat.ne_of_lt hx))
      rw [Option.toList_none, List.append_nil]
      refine ⟨?_, ?_, hinv.owner, hinv.pointer, hinv.unique⟩
      · refine forall_update (P := fun _ pc => ∀ name id' x, handOf pc = some (name, id', x) →
          ((s.shared.newProxy id ch).proxy x).id = id' ∧ s.shared.channels.get name
            = some ((s.shared.newProxy id ch).proxy x).channel ∧ ∀ k, ¬ Owned tr k x) ?_ ?_
        · intro name' id' x hx
          obtain ⟨rfl, rfl, rfl⟩ : name = name' ∧ id = id' ∧ s.shared.nextProxy = x := by
            simpa [handOf] using hx
          have hfound := htable.found t name ch (by rw [hpc]; rfl)
          refine ⟨by simp [Shared.newProxy, Shared.setProxy], ?_, ?_⟩
          · simpa [Shared.newProxy, Shared.setProxy] using hfound
          · rintro k ⟨t', name', hmem⟩
            exact absurd (hinv.owned t' k _ name' hmem).2.1 (Nat.lt_irrefl _)
        · intro t' _ name' id' x hx
          rw [hold x (hlist.hand t' name' id' x hx)]
          exact hinv.hand t' name' id' x hx
      · intro t' k x name' hmem
        obtain ⟨hk, hx, hkx, hxget⟩ := hinv.owned t' k x name' hmem
        refine ⟨hk, Nat.lt_succ_of_lt hx, ?_, ?_⟩
        · show (s.shared.subscription k).id = ((s.shared.newProxy id ch).proxy x).id
          rw [hold x hx]
          exact hkx
        · show s.shared.channels.get name' = some ((s.shared.newProxy id ch).proxy x).channel
          rw [hold x hx]
          exact hxget
  | insertLast name id ch x hpc hsh hpc' he =>
      subst hsh hpc' he
      refine hinv.same (by rintro x ⟨⟩) hget rfl rfl (fun _ => rfl) (fun _ => rfl) (fun _ => rfl)
        (fun _ _ h => h) ?_
      refine forall_update (P := fun t' pc => ∀ r, handOf pc = some r →
        handOf (s.pc t') = some r) ?_ fun _ _ _ h => h
      intro r hr
      rw [hpc]
      exact hr
  | unlink k thenFree ch i hpc hsh hpc' he =>
      subst hsh hpc' he
      refine hinv.same (by rintro x ⟨⟩) hget rfl rfl (fun _ => rfl) (fun _ => rfl) (fun _ => rfl)
        (fun _ _ h => h) ?_
      exact forall_update (P := fun t' pc => ∀ r, handOf pc = some r →
        handOf (s.pc t') = some r) (by rintro r ⟨⟩) fun _ _ _ h => h
  | newSubscription name id x hpc hsh hpc' he =>
      subst hsh hpc' he
      have hhand : handOf (s.pc t) = some (name, id, x) := by rw [hpc]; rfl
      obtain ⟨hxid, hxget, hnot⟩ := hinv.hand t name id x hhand
      have hxlt := hlist.hand t name id x hhand
      -- The new subscription is the only new owner.
      have hmem : ∀ {t' k y name'}, Event.subscribed t' k y name' ∈
          tr ++ [.subscribed t s.shared.nextSubscription x name] →
          .subscribed t' k y name' ∈ tr ∨
            (k = s.shared.nextSubscription ∧ y = x ∧ name' = name) := by
        intro t' k y name' h
        rcases List.mem_append.mp h with h | h
        · exact Or.inl h
        · simp only [List.mem_singleton, Event.subscribed.injEq] at h
          exact Or.inr ⟨h.2.1, h.2.2.1, h.2.2.2⟩
      have hold : ∀ k, k < s.shared.nextSubscription →
          (s.shared.newSubscription id name x).subscription k = s.shared.subscription k := by
        intro k hk
        exact Function.update_of_ne (Nat.ne_of_lt hk) _ _
      have hnew : (s.shared.newSubscription id name x).subscription s.shared.nextSubscription
          = ⟨id, name, some x, true, false⟩ := Function.update_self _ _ _
      have howned : Owned (tr ++ [.subscribed t s.shared.nextSubscription x name])
          s.shared.nextSubscription x := ⟨t, name, by simp⟩
      have hback : ∀ k y, Owned (tr ++ [.subscribed t s.shared.nextSubscription x name]) k y →
          Owned tr k y ∨ (k = s.shared.nextSubscription ∧ y = x) := by
        rintro k y ⟨t', name', h⟩
        exact (hmem h).imp (fun h => ⟨t', name', h⟩) fun h => ⟨h.1, h.2.1⟩
      have hlt : ∀ {k y}, Owned tr k y → k < s.shared.nextSubscription := by
        rintro k y ⟨t', name', h⟩
        exact (hinv.owned t' k y name' h).1
      rw [Option.toList_some]
      refine ⟨?_, ?_, ?_, ?_, ?_⟩
      · refine forall_update (P := fun (_ : Tid n) pc => ∀ name' id' y,
          handOf pc = some (name', id', y) →
          (s.shared.proxy y).id = id' ∧ s.shared.channels.get name'
            = some (s.shared.proxy y).channel ∧
          ∀ k, ¬ Owned (tr ++ [.subscribed t s.shared.nextSubscription x name]) k y) ?_ ?_
        · intro name' id' y hy
          cases hy
        · intro t' ht' name' id' y hy
          obtain ⟨hyid, hyget, hynot⟩ := hinv.hand t' name' id' y hy
          refine ⟨hyid, hyget, ?_⟩
          intro k hk
          rcases hback k y hk with hk | ⟨-, rfl⟩
          · exact hynot k hk
          · exact ht' (hlist.handUnique t' t _ _ _ _ y hy hhand)
      · intro t' k y name' h
        show k < s.shared.nextSubscription + 1 ∧ y < s.shared.nextProxy ∧
          ((s.shared.newSubscription id name x).subscription k).id = (s.shared.proxy y).id ∧
          s.shared.channels.get name' = some (s.shared.proxy y).channel
        rcases hmem h with h | ⟨rfl, rfl, rfl⟩
        · obtain ⟨hk, hy, hky, hyget⟩ := hinv.owned t' k y name' h
          rw [hold k hk]
          exact ⟨Nat.lt_succ_of_lt hk, hy, hky, hyget⟩
        · rw [hnew]
          exact ⟨Nat.lt_succ_self _, hxlt, hxid.symm, hxget⟩
      · intro k hk
        rcases Nat.lt_succ_iff_lt_or_eq.mp hk with hk | rfl
        · obtain ⟨y, hy⟩ := hinv.owner k hk
          exact ⟨y, hy.append⟩
        · exact ⟨x, howned⟩
      · intro k y hy
        have hy : ((s.shared.newSubscription id name x).subscription k).proxy = some y := hy
        by_cases hk : k = s.shared.nextSubscription
        · subst hk
          rw [hnew] at hy
          obtain rfl : x = y := by simpa using hy
          exact howned
        · have hne : (s.shared.newSubscription id name x).subscription k
              = s.shared.subscription k := Function.update_of_ne hk _ _
          rw [hne] at hy
          exact (hinv.pointer k y hy).append
      · intro k k' y y' h h'
        rcases hback k y h with hk | ⟨hk, hy⟩ <;> rcases hback k' y' h' with hk' | ⟨hk', hy'⟩
        · exact hinv.unique k k' y y' hk hk'
        · rw [hk', hy']
          refine iff_of_false (Nat.ne_of_lt (hlt hk)) ?_
          rintro rfl
          exact hnot k hk
        · rw [hk, hy]
          refine iff_of_false (Nat.ne_of_gt (hlt hk')) ?_
          rintro rfl
          exact hnot k' hk'
        · rw [hk, hk', hy, hy']
          exact iff_of_true rfl rfl
  | other hsame hhand hlisted he =>
      refine hinv.same he hget hsame.nextProxy hsame.nextSubscription hsame.proxyId
        hsame.proxyChannel hsame.subscriptionId hsame.pointer ?_
      refine forall_update (P := fun t' pc => ∀ r, handOf pc = some r →
        handOf (s.pc t') = some r) ?_ fun _ _ _ h => h
      intro r hr
      exact hhand ▸ hr

/-- `OwnerInv` holds in every state of a run. -/
theorem ownerInv_of_run {tr : List (Event n)} {s : State n}
    (h : (machine n capacity hcap).RunIf AllocationsSucceed tr s) : OwnerInv tr s := by
  refine invariant_of_run (I := OwnerInv) ?_ ?_ ?_ ?_ h
  · constructor <;> simp [init, handOf, Owned]
  · intro tr s b pool t pc e _ hinv _ _ hpc
    refine hinv.same ?_ (fun _ _ h => h) rfl rfl (fun _ => rfl) (fun _ => rfl) (fun _ => rfl)
      (fun _ _ h => h) ?_
    · intro x hx
      cases e with
      | none => cases hx
      | some y =>
          obtain rfl : Event.pool y = x := by simpa using hx
          rfl
    · refine forall_update (P := fun t' pc => ∀ r, handOf pc = some r →
        handOf (s.pc t') = some r) ?_ fun _ _ _ h => h
      intro r hr
      rw [(handOf_of_inCall hpc).1] at hr
      cases hr
  · intro tr s t sh pc e hrun hinv hstep
    exact ownerInv_thread hinv (listInv_of_run hrun) (tableInv_of_run hrun) hstep
      (hstep.objectStep (fresh_of_run hrun _ le_rfl).2)
  · intro tr s t hinv
    exact ⟨hinv.1, hinv.2, hinv.3, hinv.4, hinv.5⟩

/-! ### What an unsubscribe has found -/

/-- The subscription that the thread unsubscribes. -/
def unsubscribing : Pc → Option Nat
  | .unsubscribe k _ _ => some k
  | _ => none

/-- The subscription, the channel and the position of the proxy that an unsubscribe has found
and has still to take out of the list. -/
def targetOf : Pc → Option (Nat × Nat × Nat)
  | .unsubscribe k _ (.freeProxy ch i _ _) | .unsubscribe k _ (.unlink ch i) => some (k, ch, i)
  | _ => none

/-- The proxy that an unsubscribe is freeing. -/
def freedProxy : Pc → Option Nat
  | .unsubscribe _ _ (.freeProxy _ _ x _) => some x
  | _ => none

/-- A thread is inside an unsubscribe only after its call. -/
theorem ThreadStep.unsubscribing {t : Tid n} {sh sh' : Shared n} {pc pc' : Pc}
    {e : Option (Event n)} (h : ThreadStep t sh pc sh' pc' e) {k : Nat}
    (hk : unsubscribing pc' = some k) :
    MessageBroker.unsubscribing pc = some k ∨
    (e = some (.unsubscribeCall t k) ∧ k < sh.nextSubscription) := by
  cases h with
  | callUnsubscribe c ht k' thenFree hk' =>
      obtain rfl : k' = k := by simpa [MessageBroker.unsubscribing] using hk
      exact Or.inr ⟨rfl, hk'⟩
  | unsubscribeInactive hret => rcases hret with ⟨rfl, -⟩ | ⟨rfl, -⟩ <;> cases hk
  | clearProxy hret => rcases hret with ⟨rfl, -⟩ | ⟨rfl, -⟩ <;> cases hk
  | receiveRead hret => rcases hret with ⟨r', rfl, -⟩ | ⟨rfl, -⟩ <;> cases hk
  | receiveInbox x p hp hinbox hret => rcases hret with ⟨r', rfl, -⟩ | ⟨rfl, -⟩ <;> cases hk
  | pendingRead hret => rcases hret with ⟨rfl, -⟩ | ⟨rfl, -⟩ <;> cases hk
  | _ => exact Or.inl hk

/-- An unsubscribe has found the proxy before, or it has just found it by the id of its
subscription. -/
theorem ThreadStep.target {t : Tid n} {sh sh' : Shared n} {pc pc' : Pc}
    {e : Option (Event n)} (h : ThreadStep t sh pc sh' pc' e) {k ch i : Nat}
    (hk : targetOf pc' = some (k, ch, i)) :
    (targetOf pc = some (k, ch, i) ∧
      ∀ y, freedProxy pc' = some y → freedProxy pc = some y) ∨
    (∃ x, (sh.channel ch).subscriberProxies[i]? = some x ∧
      (sh.proxy x).id = (sh.subscription k).id ∧ freedProxy pc' = some x ∧ sh' = sh) := by
  cases h with
  | searchHit ch' i' x hx hid =>
      obtain ⟨rfl, rfl, rfl⟩ : _ = k ∧ ch' = ch ∧ i' = i := by simpa [targetOf] using hk
      exact Or.inr ⟨x, hx, hid, rfl, rfl⟩
  | freeRelease ch' i' x => exact Or.inl ⟨hk, by rintro y ⟨⟩⟩
  | unsubscribeTest u u' hu => rcases hu with ⟨rfl, rfl⟩ | ⟨rfl, rfl | rfl⟩ <;> cases hk
  | unsubscribeInactive hret => rcases hret with ⟨rfl, -⟩ | ⟨rfl, -⟩ <;> cases hk
  | unsubscribeInbox x p u u' hp hinbox hu =>
      rcases hu with ⟨rfl, rfl⟩ | ⟨rfl, rfl⟩ | ⟨rfl, rfl⟩ <;> cases hk
  | clearProxy hret => rcases hret with ⟨rfl, -⟩ | ⟨rfl, -⟩ <;> cases hk
  | receiveRead hret => rcases hret with ⟨r', rfl, -⟩ | ⟨rfl, -⟩ <;> cases hk
  | receiveInbox x p hp hinbox hret => rcases hret with ⟨r', rfl, -⟩ | ⟨rfl, -⟩ <;> cases hk
  | pendingRead hret => rcases hret with ⟨rfl, -⟩ | ⟨rfl, -⟩ <;> cases hk
  | unlink ch' i' => cases hk
  | _ => exact Or.inl ⟨hk, fun _ hy => hy⟩

/-- An unsubscribe has been called, and the proxy it takes out has the id of its
subscription. -/
structure TargetInv (tr : List (Event n)) (s : State n) : Prop where
  called : ∀ t k, unsubscribing (s.pc t) = some k →
    (∃ t', .unsubscribeCall t' k ∈ tr) ∧ k < s.shared.nextSubscription
  target : ∀ t k ch i, targetOf (s.pc t) = some (k, ch, i) →
    ∃ x, (s.shared.channel ch).subscriberProxies[i]? = some x ∧
      (s.shared.proxy x).id = (s.shared.subscription k).id ∧
      ∀ y, freedProxy (s.pc t) = some y → y = x

/-- An unsubscribe that has found its proxy holds the mutex of the channel. -/
theorem channelHeld_of_target {pc : Pc} {k ch i : Nat} (h : targetOf pc = some (k, ch, i)) :
    channelHeld pc = some ch ∧ unsubscribing pc = some k := by
  unfold targetOf at h
  split at h
  · obtain ⟨rfl, rfl, rfl⟩ : _ = k ∧ _ = ch ∧ _ = i := by simpa using h
    exact ⟨rfl, rfl⟩
  · obtain ⟨rfl, rfl, rfl⟩ : _ = k ∧ _ = ch ∧ _ = i := by simpa using h
    exact ⟨rfl, rfl⟩
  · cases h

/-- The list of a channel changes only under its mutex, and proxies and subscriptions keep
their ids. -/
theorem ObjectStep.frame {t : Tid n} {sh sh' : Shared n} {pc pc' : Pc} {e : Option (Event n)}
    (h : ObjectStep t sh pc sh' pc' e) :
    (∀ ch, channelHeld pc ≠ some ch →
      (sh'.channel ch).subscriberProxies = (sh.channel ch).subscriberProxies) ∧
    (sh.nextProxy ≤ sh'.nextProxy ∧ ∀ x, x < sh.nextProxy → (sh'.proxy x).id = (sh.proxy x).id ∧
      (sh'.proxy x).channel = (sh.proxy x).channel) ∧
    (sh.nextSubscription ≤ sh'.nextSubscription ∧
      ∀ k, k < sh.nextSubscription → (sh'.subscription k).id = (sh.subscription k).id) := by
  cases h with
  | newProxy name id ch hpc hsh hpc' he =>
      subst hsh
      refine ⟨fun _ _ => rfl, ⟨Nat.le_succ _, ?_⟩, le_rfl, fun _ _ => rfl⟩
      intro x hx
      have hold : (sh.newProxy id ch).proxy x = sh.proxy x :=
        Function.update_of_ne (Nat.ne_of_lt hx) _ _
      rw [hold]
      exact ⟨rfl, rfl⟩
  | insertLast name id ch x hpc hsh hpc' he =>
      subst hsh
      refine ⟨?_, ⟨le_rfl, fun _ _ => ⟨rfl, rfl⟩⟩, le_rfl, fun _ _ => rfl⟩
      intro ch' hheld
      have hne : ch' ≠ ch := fun heq => hheld (by rw [hpc, heq]; rfl)
      rw [setChannel_channel, if_neg hne]
  | unlink k thenFree ch i hpc hsh hpc' he =>
      subst hsh
      refine ⟨?_, ⟨le_rfl, fun _ _ => ⟨rfl, rfl⟩⟩, le_rfl, fun _ _ => rfl⟩
      intro ch' hheld
      have hne : ch' ≠ ch := fun heq => hheld (by rw [hpc, heq]; rfl)
      rw [setChannel_channel, if_neg hne]
  | newSubscription name id x hpc hsh hpc' he =>
      subst hsh
      refine ⟨fun _ _ => rfl, ⟨le_rfl, fun _ _ => ⟨rfl, rfl⟩⟩, Nat.le_succ _, ?_⟩
      intro k hk
      have hold : (sh.newSubscription id name x).subscription k = sh.subscription k :=
        Function.update_of_ne (Nat.ne_of_lt hk) _ _
      rw [hold]
  | other hsame hhand hlisted he =>
      exact ⟨fun ch _ => hsame.lists ch,
        ⟨hsame.nextProxy.ge, fun x _ => ⟨hsame.proxyId x, hsame.proxyChannel x⟩⟩,
        hsame.nextSubscription.ge, fun k _ => hsame.subscriptionId k⟩

/-- A step of a thread keeps `TargetInv`. -/
theorem targetInv_thread {tr : List (Event n)} {s : State n} (hinv : TargetInv tr s)
    (hlist : ListInv s)
    (hlock : ∀ ch, LockInv (fun t => channelHeld (s.pc t) = some ch) (s.shared.channel ch).mutex)
    {t : Tid n} {sh : Shared n} {pc : Pc} {e : Option (Event n)}
    (hstep : ThreadStep t s.shared (s.pc t) sh pc e)
    (hobject : ObjectStep t s.shared (s.pc t) sh pc e) :
    TargetInv (tr ++ e.toList) ⟨s.pool, sh, Function.update s.pc t pc, s.faulted⟩ := by
  obtain ⟨hlists, ⟨-, hid⟩, hnextS, hsid⟩ := hobject.frame
  have hmono : ∀ {k}, (∃ t', .unsubscribeCall t' k ∈ tr) →
      ∃ t', .unsubscribeCall t' k ∈ tr ++ e.toList := by
    rintro k ⟨t', hmem⟩
    exact ⟨t', List.mem_append_left _ hmem⟩
  -- What was found stays where it was, as long as the list stays.
  have hkeep : ∀ {k ch i x : Nat}, (sh.channel ch).subscriberProxies
        = (s.shared.channel ch).subscriberProxies → k < s.shared.nextSubscription →
      (s.shared.channel ch).subscriberProxies[i]? = some x →
      (s.shared.proxy x).id = (s.shared.subscription k).id →
      (sh.channel ch).subscriberProxies[i]? = some x ∧
        (sh.proxy x).id = (sh.subscription k).id := by
    intro k ch i x hsame hk hx hxid
    have hxlt := hlist.bound ch x (List.mem_of_getElem? hx)
    refine ⟨by rw [hsame]; exact hx, ?_⟩
    rw [(hid x hxlt).1, hsid k hk]
    exact hxid
  constructor
  · refine forall_update (P := fun (_ : Tid n) pc => ∀ k, unsubscribing pc = some k →
      (∃ t', .unsubscribeCall t' k ∈ tr ++ e.toList) ∧ k < sh.nextSubscription) ?_ ?_
    · intro k hk
      rcases hstep.unsubscribing hk with hold | ⟨rfl, hlt⟩
      · obtain ⟨hcall, hlt⟩ := hinv.called t k hold
        exact ⟨hmono hcall, Nat.lt_of_lt_of_le hlt hnextS⟩
      · exact ⟨⟨t, by simp⟩, Nat.lt_of_lt_of_le hlt hnextS⟩
    · intro t' _ k hk
      obtain ⟨hcall, hlt⟩ := hinv.called t' k hk
      exact ⟨hmono hcall, Nat.lt_of_lt_of_le hlt hnextS⟩
  · refine forall_update (P := fun (_ : Tid n) pc => ∀ k ch i, targetOf pc = some (k, ch, i) →
      ∃ x, (sh.channel ch).subscriberProxies[i]? = some x ∧
        (sh.proxy x).id = (sh.subscription k).id ∧ ∀ y, freedProxy pc = some y → y = x) ?_ ?_
    · intro k ch i hk
      rcases hstep.target hk with ⟨hold, hfreed⟩ | ⟨x, hx, hxid, hfreed, rfl⟩
      · obtain ⟨x, hx, hxid, hy⟩ := hinv.target t k ch i hold
        have hkn := (hinv.called t k (channelHeld_of_target hold).2).2
        have hsame : (sh.channel ch).subscriberProxies
            = (s.shared.channel ch).subscriberProxies := by
          cases hobject with
          | newProxy name id ch' hpc hsh hpc' he =>
              rw [hpc] at hold
              cases hold
          | insertLast name id ch' x' hpc hsh hpc' he =>
              rw [hpc] at hold
              cases hold
          | unlink k' thenFree ch' i' hpc hsh hpc' he =>
              rw [hpc'] at hk
              cases hk
          | newSubscription name id x' hpc hsh hpc' he =>
              rw [hpc] at hold
              cases hold
          | other hsame hhand hlisted he => exact hsame.lists ch
        obtain ⟨hx', hxid'⟩ := hkeep hsame hkn hx hxid
        exact ⟨x, hx', hxid', fun y hy' => hy y (hfreed y hy')⟩
      · refine ⟨x, hx, hxid, ?_⟩
        intro y hy
        rw [hfreed] at hy
        exact (Option.some.inj hy).symm
    · intro t' ht' k ch i hk
      obtain ⟨x, hx, hxid, hy⟩ := hinv.target t' k ch i hk
      obtain ⟨hheld, huns⟩ := channelHeld_of_target hk
      have hkn := (hinv.called t' k huns).2
      have hsame := hlists ch fun hme => ht' ((hlock ch).unique hheld hme)
      obtain ⟨hx', hxid'⟩ := hkeep hsame hkn hx hxid
      exact ⟨x, hx', hxid', hy⟩

/-- `TargetInv` holds in every state of a run. -/
theorem targetInv_of_run {tr : List (Event n)} {s : State n}
    (h : (machine n capacity hcap).RunIf AllocationsSucceed tr s) : TargetInv tr s := by
  refine invariant_of_run (I := TargetInv) ?_ ?_ ?_ ?_ h
  · constructor <;> simp [init, unsubscribing, targetOf]
  · intro tr s b pool t pc e _ hinv _ _ hpc
    constructor
    · refine forall_update (P := fun (_ : Tid n) pc => ∀ k, unsubscribing pc = some k →
        (∃ t', .unsubscribeCall t' k ∈ tr ++ (e.map Event.pool).toList) ∧
          k < s.shared.nextSubscription) ?_ ?_
      · intro k hk
        rcases inCall_cases hpc with rfl | ⟨arg, rfl⟩ | rfl | ⟨arg, rfl⟩ <;> cases hk
      · intro t' _ k hk
        obtain ⟨⟨t₁, hcall⟩, hlt⟩ := hinv.called t' k hk
        exact ⟨⟨t₁, List.mem_append_left _ hcall⟩, hlt⟩
    · refine forall_update (P := fun (_ : Tid n) pc => ∀ k ch i, targetOf pc = some (k, ch, i) →
        ∃ x, (s.shared.channel ch).subscriberProxies[i]? = some x ∧
          (s.shared.proxy x).id = (s.shared.subscription k).id ∧
          ∀ y, freedProxy pc = some y → y = x) ?_ fun t' _ => hinv.target t'
      intro k ch i hk
      rcases inCall_cases hpc with rfl | ⟨arg, rfl⟩ | rfl | ⟨arg, rfl⟩ <;> cases hk
  · intro tr s t sh pc e hrun hinv hstep
    exact targetInv_thread hinv (listInv_of_run hrun) (channelLock_of_run hrun) hstep
      (hstep.objectStep (fresh_of_run hrun _ le_rfl).2)
  · intro tr s t hinv
    exact ⟨hinv.1, hinv.2⟩

end

end Miez.Proofs.MessageBroker
