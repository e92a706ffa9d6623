import Miez.Proofs.MessageBroker.Failures
import Miez.Proofs.MessageBroker.Present

/-!
# `Miez.Proofs.MessageBroker.Listed`: every listed proxy has an owner

A subscribe puts its proxy into the list of the channel before its last two allocations, and an
unsubscribe takes a failed lookup for an absent proxy. So some failures leave a proxy in a list
that no subscription owns. `HarmlessFailures` leaves these out and allows all others.
`HarmlessStep` says what a step of a call that fails harmlessly can do, and `BrokerInv` collects
the invariants of the channels, the lists and the subscriptions for runs with such failures.

`ListedInv` follows a proxy from the list of its channel to its subscription and back. Its
consequence for a state without a call in progress is `listed_proxies_owned`.
-/

set_option autoImplicit false

namespace Miez.Proofs.MessageBroker

open Miez.Lib
open Miez.MessageBroker
open Miez.ThreadPool (Tid)

section
variable {n : Nat} {capacity : UInt64} {hcap : capacity ≠ 0}

/-! ### Harmless failures -/

/-- The step is none of those that leave a proxy without an owner: no lookup of an existing
channel fails, no list node of the channel table, no allocation of the subscription after the
proxy is in the list, no allocation of an unsubscribe, and the subscriber ids do not wrap
around. -/
def HarmlessFailures (s : State n) : Action n → Prop
  | .thread t .fail =>
      match s.pc t with
      | .publisherTask arg (.getChannel .get) => s.shared.channels.get arg.channelName = none
      | .subscribe name _ (.getChannel .get) => s.shared.channels.get name = none
      | .subscribe _ _ (.newSubscription _) => False
      | .unsubscribe _ _ _ => False
      | _ => True
  | .thread _ .failNode => False
  | .thread _ (.callSubscribe _) => s.shared.nextSubscribe + 1 < 2 ^ 64
  | _ => True

instance (s : State n) (a : Action n) : Decidable (HarmlessFailures s a) := by
  unfold HarmlessFailures
  induction a using MessageBroker.Action.casesOn with
  | thread t move =>
      induction move using MessageBroker.Move.casesOn with
      | fail =>
          dsimp only
          generalize s.pc t = pc
          induction pc using MessageBroker.Pc.casesOn with
          | publisherTask arg p =>
              induction p using MessageBroker.PublisherTaskPc.casesOn with
              | getChannel g => induction g using MessageBroker.GetChannelPc.casesOn <;> infer_instance
              | _ => infer_instance
          | subscribe name id p =>
              induction p using MessageBroker.SubscribePc.casesOn with
              | getChannel g => induction g using MessageBroker.GetChannelPc.casesOn <;> infer_instance
              | _ => infer_instance
          | _ => infer_instance
      | _ => infer_instance
  | _ => infer_instance

/-- A write that leaves the table, the lists, the subscriptions and the ids alone. -/
structure QuietWrite (sh sh' : Shared n) : Prop where
  objects : SameObjects sh sh'
  subscriptions : sh'.subscription = sh.subscription
  table : sh'.channels = sh.channels
  nextChannel : sh'.nextChannel = sh.nextChannel
  channelName : ∀ ch, (sh'.channel ch).channelName = (sh.channel ch).channelName
  mutex : ∀ ch, (sh.channel ch).mutex = none → (sh'.channel ch).mutex = none
  subscriberId : sh'.nextSubscriberId = sh.nextSubscriberId
  nextSubscribe : sh'.nextSubscribe = sh.nextSubscribe

/-- The proxy that a subscribe has put into the list and has not handed out yet. -/
def insertedProxy : Pc → Option Nat
  | .subscribe _ _ (.unlockChannel _ x) | .subscribe _ _ (.newSubscription x) => some x
  | _ => none

/-- What a step of a call that fails harmlessly does. -/
structure HarmlessStep (t : Tid n) (sh : Shared n) (pc : Pc) (sh' : Shared n) (pc' : Pc)
    (e : Option (Event n)) : Prop where
  write : QuietWrite sh sh'
  hand : HandLe pc' pc
  subscribed : ∀ x, e = some x → isSubscribed x = false
  unsubscribeCall : ∀ t' k, e ≠ some (.unsubscribeCall t' k)
  getting : ∀ name g, getting pc' = some (name, g) →
    (g = .new → sh.channels.get name = none) ∧ ∀ ch, g ≠ .insert ch
  channelOf : ∀ r, channelOf pc' = some r → channelOf pc = some r
  unsubscribing : unsubscribing pc' = none ∧ unsubscribing pc = none
  channelsLock :
    LockStep t (holdsChannels pc) (holdsChannels pc') sh.channelsMutex sh'.channelsMutex
  channelLock : ∀ ch, LockStep t (channelHeld pc = some ch) (channelHeld pc' = some ch)
    (sh.channel ch).mutex (sh'.channel ch).mutex
  pending : ∀ id, pendingId pc' = some id → pendingId pc = some id
  inserted : insertedProxy pc' = none ∧ insertedProxy pc = none

section
variable {t : Tid n} {sh sh' : Shared n} {pc pc' : Pc} {e : Option (Event n)}

/-- No write. -/
theorem QuietWrite.refl (sh : Shared n) : QuietWrite sh sh :=
  ⟨.refl sh, rfl, rfl, rfl, fun _ => rfl, fun _ h => h, rfl, rfl⟩

/-- A write to a proxy that leaves its id and its channel alone. -/
theorem QuietWrite.setProxy {x : Nat} {p : SubscriberProxy n} (hid : p.id = (sh.proxy x).id)
    (hchannel : p.channel = (sh.proxy x).channel) : QuietWrite sh (sh.setProxy x p) :=
  ⟨.setProxy hid hchannel, rfl, rfl, rfl, fun _ => rfl, fun _ h => h, rfl, rfl⟩

/-- A write to a channel that leaves its name and its list alone and does not lock it. -/
theorem QuietWrite.setChannel {ch : Nat} {c : Channel n}
    (hname : c.channelName = (sh.channel ch).channelName)
    (hlist : c.subscriberProxies = (sh.channel ch).subscriberProxies)
    (hmutex : (sh.channel ch).mutex = none → c.mutex = none) :
    QuietWrite sh (sh.setChannel ch c) := by
  refine ⟨.setChannel hlist, rfl, rfl, rfl, ?_, ?_, rfl, rfl⟩ <;> intro ch' <;>
    rw [setChannel_channel] <;> by_cases hch : ch' = ch
  · rw [if_pos hch, hch, hname]
  · rw [if_neg hch]
  · rw [if_pos hch, hch]
    exact hmutex
  · rw [if_neg hch]
    exact fun h => h

/-- The get-or-create of a channel fails, and the table stays as it is. -/
theorem GetChannelFail.quietWrite {name : CString} {freeFirst : Bool} {g : GetChannelPc}
    {r : GetChannelResult} (h : GetChannelFail name freeFirst sh g sh' r)
    (htable : sh'.channels = sh.channels) : QuietWrite sh sh' := by
  have hrelease : ∀ ch, QuietWrite sh
      (sh.setChannel ch { sh.channel ch with released := true }) :=
    fun ch => .setChannel (by rfl) (by rfl) fun h => h
  cases h with
  | insertNode ch =>
      obtain ⟨hobj, hsub, -, hnext, hname, hmutex, hid, hcount⟩ := hrelease ch
      exact ⟨⟨hobj.1, hobj.2, hobj.3, hobj.4, hobj.5, hobj.6, hobj.7⟩, hsub, htable, hnext, hname,
        hmutex, hid, hcount⟩
  | freeUnlock ch hlive => exact hrelease ch
  | free ch hlive => exact hrelease ch
  | unlockFree ch =>
      exact ⟨⟨fun _ => rfl, rfl, fun _ => rfl, fun _ => rfl, rfl, fun _ => rfl, fun _ _ h => h⟩,
        rfl, rfl, rfl, fun _ => rfl, fun _ h => h, rfl, rfl⟩
  | unlockFailed =>
      exact ⟨⟨fun _ => rfl, rfl, fun _ => rfl, fun _ => rfl, rfl, fun _ => rfl, fun _ _ h => h⟩,
        rfl, rfl, rfl, fun _ => rfl, fun _ h => h, rfl, rfl⟩
  | _ => exact .refl sh

/-- What the failing get-or-create does to `_channels_mutex`. -/
theorem GetChannelFail.lockStep {name : CString} {freeFirst : Bool} {g : GetChannelPc}
    {r : GetChannelResult} (h : GetChannelFail name freeFirst sh g sh' r) :
    LockStep t (getChannelHolds g) (∃ g', r = .more g' ∧ getChannelHolds g')
      sh.channelsMutex sh'.channelsMutex := by
  cases h with
  | unlockFree ch =>
      refine .release rfl trivial ?_
      rintro ⟨g', hg', hholds⟩
      obtain rfl := GetChannelResult.more.inj hg'
      exact hholds
  | unlockFailed => exact .release rfl trivial (by rintro ⟨g', hg', -⟩; cases hg')
  | free ch hlive =>
      exact .keep rfl (iff_of_false (by rintro ⟨g', hg', -⟩; cases hg') fun h => h)
  | insert ch =>
      refine .keep rfl (iff_of_true ⟨_, rfl, ?_⟩ trivial)
      cases freeFirst <;> trivial
  | insertNode ch =>
      refine .keep rfl (iff_of_true ⟨_, rfl, ?_⟩ trivial)
      cases freeFirst <;> trivial
  | _ => exact .keep rfl (iff_of_true ⟨_, rfl, trivial⟩ trivial)

/-- The failing get-or-create leaves the mutexes of the channels alone. -/
theorem GetChannelFail.channelMutex {name : CString} {freeFirst : Bool} {g : GetChannelPc}
    {r : GetChannelResult} (h : GetChannelFail name freeFirst sh g sh' r) (ch : Nat) :
    (sh'.channel ch).mutex = (sh.channel ch).mutex := by
  have hrelease : ∀ ch', ((sh.setChannel ch' { sh.channel ch' with released := true }).channel
      ch).mutex = (sh.channel ch).mutex := by
    intro ch'
    rw [setChannel_channel]
    by_cases hch : ch = ch'
    · rw [if_pos hch, hch]
    · rw [if_neg hch]
  cases h with
  | insertNode ch' => exact hrelease ch'
  | freeUnlock ch' hlive => exact hrelease ch'
  | free ch' hlive => exact hrelease ch'
  | _ => rfl

/-- The failing get-or-create has no channel in hand, and it looks for a new one only when its
lookup has failed. -/
theorem GetChannelFail.more {name : CString} {freeFirst : Bool} {g g' : GetChannelPc}
    (h : GetChannelFail name freeFirst sh g sh' (.more g')) :
    (g' = .new → g = .get) ∧ (∀ ch, g' ≠ .insert ch) ∧ getChannelFound g' = none := by
  cases h with
  | insert ch => cases freeFirst <;> exact ⟨by simp, by simp, rfl⟩
  | insertNode ch => cases freeFirst <;> exact ⟨by simp, by simp, rfl⟩
  | _ => exact ⟨by simp, by simp, rfl⟩

/-- A get-or-create that fails without the failure of a list node leaves the table alone. -/
theorem getChannel_table {name : CString} {freeFirst : Bool} {g : GetChannelPc} {move : Move n}
    {r : GetChannelResult} (h : getChannel t name freeFirst sh g move = some (sh', r))
    (hfail : move = .fail ∨ getChannelFailed g = true) (hnode : move ≠ .failNode) :
    sh'.channels = sh.channels := by
  cases g with
  | lock => cases move <;> simp_all [getChannel, getChannelFailed]
  | get =>
      rcases hfail with rfl | hpath
      · simp only [getChannel, Option.ite_none_left_eq_some, Option.some.injEq,
          Prod.mk.injEq] at h
        rw [h.2.1]
      · cases hpath
  | new =>
      rcases hfail with rfl | hpath
      · simp only [getChannel, Option.some.injEq, Prod.mk.injEq] at h
        rw [h.1]
      · cases hpath
  | insert ch =>
      rcases hfail with rfl | hpath
      · simp only [getChannel, Option.some.injEq, Prod.mk.injEq] at h
        rw [h.1]
      · cases hpath
  | unlock ch => cases move <;> simp_all [getChannel, getChannelFailed]
  | freeUnlock ch =>
      cases move <;> simp only [getChannel] at h <;> try cases h
      split_ifs at h <;> obtain ⟨rfl, -⟩ := Prod.mk.inj (Option.some.inj h) <;> rfl
  | unlockFree ch =>
      cases move <;> simp only [getChannel] at h <;> try cases h
      rfl
  | free ch =>
      cases move <;> simp only [getChannel] at h <;> try cases h
      split_ifs at h <;> obtain ⟨rfl, -⟩ := Prod.mk.inj (Option.some.inj h) <;> rfl
  | unlockFailed =>
      cases move <;> simp only [getChannel] at h <;> try cases h
      rfl

/-- A failing call leaves the table alone. -/
theorem FailStep.table {move : Move n} (h : FailStep t sh pc sh' pc' e)
    (hf : threadFunction t sh pc move = some (.step sh' pc' e)) (hfail : isFailing pc move)
    (hnode : move ≠ .failNode) : sh'.channels = sh.channels := by
  have hgetChannel : ∀ {name : CString} {freeFirst : Bool} {g : GetChannelPc}
      {r : GetChannelResult}, onFailurePath pc = getChannelFailed g →
      getChannel t name freeFirst sh g move = some (sh', r) → sh'.channels = sh.channels := by
    intro name freeFirst g r hpath hg
    refine getChannel_table hg ?_ hnode
    rcases hfail with h | h | h
    · exact Or.inl h
    · exact absurd h hnode
    · exact Or.inr (hpath ▸ h)
  cases h with
  | taskMore hg =>
      simp only [threadFunction, publisherTask, Option.map_eq_some_iff] at hf
      obtain ⟨⟨sh₁, r⟩, hr, heq⟩ := hf
      cases r <;> cases heq
      exact hgetChannel rfl hr
  | taskFailed hg =>
      simp only [threadFunction, publisherTask, Option.map_eq_some_iff] at hf
      obtain ⟨⟨sh₁, r⟩, hr, heq⟩ := hf
      cases r <;> cases heq
      exact hgetChannel rfl hr
  | subscribeMore hg =>
      simp only [threadFunction, messageBrokerSubscribe, Option.map_eq_some_iff] at hf
      obtain ⟨⟨sh₁, r⟩, hr, heq⟩ := hf
      cases r <;> cases heq
      exact hgetChannel rfl hr
  | subscribeFailed hg =>
      simp only [threadFunction, messageBrokerSubscribe, Option.map_eq_some_iff] at hf
      obtain ⟨⟨sh₁, r⟩, hr, heq⟩ := hf
      cases r <;> cases heq
      exact hgetChannel rfl hr
  | _ => rfl

/-- A step that holds no channel and leaves `_channels_mutex` and the channels alone. -/
theorem harmlessStep_of_free (hwrite : QuietWrite sh sh') (hhand : HandLe pc' pc)
    (hsubscribed : ∀ x, e = some x → isSubscribed x = false)
    (hcall : ∀ t' k, e ≠ some (.unsubscribeCall t' k))
    (hgetting : getting pc' = none) (hchannel : channelOf pc' = none)
    (huns : unsubscribing pc' = none ∧ unsubscribing pc = none)
    (hholds : ¬ holdsChannels pc ∧ ¬ holdsChannels pc')
    (hheld : channelHeld pc = none ∧ channelHeld pc' = none)
    (hmutex : sh'.channelsMutex = sh.channelsMutex)
    (hchannels : ∀ ch, (sh'.channel ch).mutex = (sh.channel ch).mutex)
    (hpending : ∀ id, pendingId pc' = some id → pendingId pc = some id)
    (hinserted : insertedProxy pc' = none ∧ insertedProxy pc = none) :
    HarmlessStep t sh pc sh' pc' e where
  write := hwrite
  hand := hhand
  subscribed := hsubscribed
  unsubscribeCall := hcall
  getting name g h := by rw [hgetting] at h; cases h
  channelOf r h := by rw [hchannel] at h; cases h
  unsubscribing := huns
  channelsLock := .keep hmutex (iff_of_false hholds.2 hholds.1)
  channelLock ch := .keep (hchannels ch) (by rw [hheld.1, hheld.2])
  pending := hpending
  inserted := hinserted

/-- A get-or-create that fails and goes on. -/
theorem harmlessStep_of_more {name : CString} {freeFirst : Bool} {g g' : GetChannelPc}
    (hg : GetChannelFail name freeFirst sh g sh' (.more g'))
    (htable : sh'.channels = sh.channels) (hget : g = .get → sh.channels.get name = none)
    (hgetting : getting pc' = some (name, g')) (hchannel : channelOf pc' = none)
    (hholds : (holdsChannels pc ↔ getChannelHolds g) ∧ (holdsChannels pc' ↔ getChannelHolds g'))
    (hrest : HandLe pc' pc ∧ (unsubscribing pc' = none ∧ unsubscribing pc = none) ∧
      (channelHeld pc = none ∧ channelHeld pc' = none) ∧ pendingId pc' = pendingId pc ∧
      insertedProxy pc' = none ∧ insertedProxy pc = none) :
    HarmlessStep t sh pc sh' pc' none where
  write := hg.quietWrite htable
  hand := hrest.1
  subscribed x h := by cases h
  unsubscribeCall t' k h := by cases h
  getting name' g₁ h := by
    rw [hgetting] at h
    obtain ⟨rfl, rfl⟩ := Prod.mk.inj (Option.some.inj h)
    exact ⟨fun hnew => hget (hg.more.1 hnew), hg.more.2.1⟩
  channelOf r h := by rw [hchannel] at h; cases h
  unsubscribing := hrest.2.1
  channelsLock := by
    rw [propext hholds.1, propext hholds.2]
    simpa using hg.lockStep (t := t)
  channelLock ch := .keep (hg.channelMutex ch) (by rw [hrest.2.2.1.1, hrest.2.2.1.2])
  pending id h := by rw [← hrest.2.2.2.1]; exact h
  inserted := hrest.2.2.2.2

/-- A get-or-create that fails and ends the call. -/
theorem harmlessStep_of_failed {name : CString} {freeFirst : Bool} {g : GetChannelPc}
    (hg : GetChannelFail name freeFirst sh g sh' .failed) (htable : sh'.channels = sh.channels)
    (hholds : holdsChannels pc ↔ getChannelHolds g) (huns : unsubscribing pc = none)
    (hheld : channelHeld pc = none) (hinserted : insertedProxy pc = none)
    (hsubscribed : ∀ x, e = some x → isSubscribed x = false)
    (hcall : ∀ t' k, e ≠ some (.unsubscribeCall t' k)) : HarmlessStep t sh pc sh' .idle e where
  write := hg.quietWrite htable
  hand := .of_none rfl rfl
  subscribed := hsubscribed
  unsubscribeCall := hcall
  getting name' g₁ h := by cases h
  channelOf r h := by cases h
  unsubscribing := ⟨rfl, huns⟩
  channelsLock := by
    rw [propext hholds]
    simpa [holdsChannels] using hg.lockStep (t := t)
  channelLock ch := .keep (hg.channelMutex ch) (by rw [hheld]; simp [channelHeld])
  pending id h := by cases h
  inserted := ⟨rfl, hinserted⟩

/-- A call that fails harmlessly takes the steps of `HarmlessStep`. -/
theorem FailStep.harmlessStep (h : FailStep t sh pc sh' pc' e)
    (htable : sh'.channels = sh.channels)
    (hget : ∀ name, getting pc = some (name, .get) → sh.channels.get name = none)
    (hsub : ∀ name id x, pc ≠ .subscribe name id (.newSubscription x))
    (huns : unsubscribing pc = none) : HarmlessStep t sh pc sh' pc' e := by
  have hnone : ∀ x : Event n, none = some x → isSubscribed x = false := by
    intro x hx
    cases hx
  have hcall : ∀ (t' : Tid n) k, none ≠ some (Event.unsubscribeCall t' k) := by
    intro t' k hx
    cases hx
  cases h with
  | publish arg =>
      exact harmlessStep_of_free (.refl sh) (.of_none rfl rfl) (by rintro x ⟨⟩; rfl)
        (by rintro t' k ⟨⟩) rfl rfl ⟨rfl, rfl⟩ ⟨fun h => h, fun h => h⟩ ⟨rfl, rfl⟩ rfl
        (fun _ => rfl) (by rintro id ⟨⟩) ⟨rfl, rfl⟩
  | taskMore hg =>
      exact harmlessStep_of_more hg htable (fun h => hget _ (by rw [h]; rfl)) rfl
        (by simp [MessageBroker.channelOf, hg.more.2.2]) ⟨Iff.rfl, Iff.rfl⟩
        ⟨.of_none rfl rfl, ⟨rfl, rfl⟩, ⟨rfl, rfl⟩, rfl, rfl, rfl⟩
  | subscribeMore hg =>
      exact harmlessStep_of_more hg htable (fun h => hget _ (by rw [h]; rfl)) rfl
        (by simp [MessageBroker.channelOf, hg.more.2.2]) ⟨Iff.rfl, Iff.rfl⟩
        ⟨.of_none rfl rfl, ⟨rfl, rfl⟩, ⟨rfl, rfl⟩, rfl, rfl, rfl⟩
  | taskFailed hg => exact harmlessStep_of_failed hg htable Iff.rfl rfl rfl rfl hnone hcall
  | subscribeFailed hg =>
      exact harmlessStep_of_failed hg htable Iff.rfl rfl rfl rfl (by rintro x ⟨⟩; rfl)
        (by rintro t' k ⟨⟩)
  | begin ch =>
      exact ⟨.refl sh, .of_none rfl rfl, hnone, hcall, by rintro name g ⟨⟩, fun _ h => h,
        ⟨rfl, rfl⟩, .keep rfl Iff.rfl, fun _ => .keep rfl Iff.rfl, by rintro id ⟨⟩, ⟨rfl, rfl⟩⟩
  | skip ch i x pc hpc =>
      rcases hpc with rfl | rfl <;>
        exact ⟨.refl sh, .of_none rfl rfl, hnone, hcall, by rintro name g ⟨⟩, fun _ h => h,
          ⟨rfl, rfl⟩, .keep rfl Iff.rfl, fun _ => .keep rfl Iff.rfl, by rintro id ⟨⟩, ⟨rfl, rfl⟩⟩
  | newProxy ch =>
      exact harmlessStep_of_free (.refl sh) (.of_none rfl rfl) (by rintro x ⟨⟩; rfl)
        (by rintro t' k ⟨⟩) rfl rfl ⟨rfl, rfl⟩ ⟨fun h => h, fun h => h⟩ ⟨rfl, rfl⟩ rfl
        (fun _ => rfl) (by rintro id ⟨⟩) ⟨rfl, rfl⟩
  | insertLast ch x =>
      exact ⟨.refl sh, .of_none rfl rfl, hnone, hcall, by rintro name g ⟨⟩, fun _ h => h,
        ⟨rfl, rfl⟩, .keep rfl Iff.rfl, fun _ => .keep rfl Iff.rfl, by rintro id ⟨⟩, ⟨rfl, rfl⟩⟩
  | unlockFailed ch x =>
      exact ⟨.setChannel rfl rfl fun _ => rfl, .of_none rfl rfl, hnone, hcall,
        by rintro name g ⟨⟩, by rintro r ⟨⟩, ⟨rfl, rfl⟩, .keep rfl Iff.rfl,
        lockStep_of_release rfl rfl, by rintro id ⟨⟩, ⟨rfl, rfl⟩⟩
  | freeDeactivate x =>
      exact harmlessStep_of_free (.setProxy (by rfl) (by rfl)) (.of_none rfl rfl) hnone hcall rfl
        rfl ⟨rfl, rfl⟩ ⟨fun h => h, fun h => h⟩ ⟨rfl, rfl⟩ rfl (fun _ => rfl) (by rintro id ⟨⟩) ⟨rfl, rfl⟩
  | freeInbox x p f f' hp hinbox hf =>
      exact harmlessStep_of_free (.setProxy hp.id hp.channel) (.of_none rfl rfl) hnone hcall rfl
        rfl ⟨rfl, rfl⟩ ⟨fun h => h, fun h => h⟩ ⟨rfl, rfl⟩ rfl (fun _ => rfl) (by rintro id ⟨⟩) ⟨rfl, rfl⟩
  | freeRelease x =>
      exact harmlessStep_of_free (.setProxy (by rfl) (by rfl)) (.of_none rfl rfl)
        (by rintro x ⟨⟩; rfl) (by rintro t' k ⟨⟩) rfl rfl ⟨rfl, rfl⟩
        ⟨fun h => h, fun h => h⟩ ⟨rfl, rfl⟩ rfl (fun _ => rfl) (by rintro id ⟨⟩) ⟨rfl, rfl⟩
  | newSubscription x => exact absurd rfl (hsub _ _ x)
  | unsubscribeGet => cases huns
  | unsubscribeSearch ch => cases huns

/-- All steps of a thread in a run with harmless failures. -/
theorem threadFunction_harmless {s : State n} {move : Move n}
    (hf : threadFunction t s.shared (s.pc t) move = some (.step sh' pc' e))
    (hK : HarmlessFailures s (.thread t move)) :
    ThreadStep t s.shared (s.pc t) sh' pc' e ∨ HarmlessStep t s.shared (s.pc t) sh' pc' e := by
  rcases threadFunction_cases hf with hstep | ⟨hstep, hfail⟩
  · exact Or.inl hstep
  · have hnode : move ≠ .failNode := by
      rintro rfl
      exact hK
    -- Outside the failure paths the step is the failure of an allocation.
    have hmove : onFailurePath (s.pc t) = false → move = .fail := by
      intro hpath
      rcases hfail with h | h | h
      · exact h
      · exact absurd h hnode
      · rw [hpath] at h
        cases h
    refine Or.inr (hstep.harmlessStep (hstep.table hf hfail hnode) ?_ ?_ ?_)
    · intro name hname
      cases hpc : s.pc t with
      | publisherTask arg pc =>
          rw [hpc] at hname
          cases pc with
          | getChannel g =>
              obtain ⟨rfl, rfl⟩ : arg.channelName = name ∧ g = .get := by
                simpa [MessageBroker.getting] using hname
              obtain rfl := hmove (by rw [hpc]; rfl)
              simpa only [HarmlessFailures, hpc] using hK
          | _ => cases hname
      | subscribe name' id pc =>
          rw [hpc] at hname
          cases pc with
          | getChannel g =>
              obtain ⟨rfl, rfl⟩ : name' = name ∧ g = .get := by
                simpa [MessageBroker.getting] using hname
              obtain rfl := hmove (by rw [hpc]; rfl)
              simpa only [HarmlessFailures, hpc] using hK
          | _ => cases hname
      | _ => rw [hpc] at hname; cases hname
    · intro name id x hpc
      obtain rfl := hmove (by rw [hpc]; rfl)
      simp only [HarmlessFailures, hpc] at hK
    · cases hpc : s.pc t with
      | unsubscribe k thenFree pc =>
          obtain rfl := hmove (by rw [hpc]; rfl)
          simp only [HarmlessFailures, hpc] at hK
      | _ => rfl

/-- A step of the pool is harmless. -/
theorem harmlessStep_of_pool {e' : Option (ThreadPool.Event n PublisherTaskArg)}
    (hold : inCall pc = true) (hnew : inCall pc' = true) :
    HarmlessStep t sh pc sh pc' (e'.map Event.pool) := by
  have hnotUnsubscribing : ∀ {pc : Pc}, inCall pc = true → unsubscribing pc = none := by
    intro pc h
    rcases inCall_cases h with rfl | ⟨arg, rfl⟩ | rfl | ⟨arg, rfl⟩ <;> rfl
  have hnotInserted : ∀ {pc : Pc}, inCall pc = true → insertedProxy pc = none := by
    intro pc h
    rcases inCall_cases h with rfl | ⟨arg, rfl⟩ | rfl | ⟨arg, rfl⟩ <;> rfl
  refine ⟨.refl sh, .of_none (handOf_of_inCall hnew).1 (handOf_of_inCall hnew).2, ?_, ?_, ?_, ?_,
    ⟨hnotUnsubscribing hnew, hnotUnsubscribing hold⟩, ?_, ?_, ?_,
    ⟨hnotInserted hnew, hnotInserted hold⟩⟩
  · intro x hx
    cases e' <;> cases hx
    rfl
  · intro t' k hx
    cases e' <;> cases hx
  · intro name g hg
    constructor
    · rintro rfl
      exact absurd (holdsChannels_of_creating hg (Or.inl rfl)) (not_holdsChannels_of_inCall hnew)
    · rintro ch rfl
      exact absurd (holdsChannels_of_creating hg (Or.inr ⟨ch, rfl⟩))
        (not_holdsChannels_of_inCall hnew)
  · intro r hr
    rcases inCall_cases hnew with rfl | ⟨arg, rfl⟩ | rfl | ⟨arg, rfl⟩ <;> cases hr
  · exact .keep rfl (iff_of_false (not_holdsChannels_of_inCall hnew)
      (not_holdsChannels_of_inCall hold))
  · intro ch
    exact .keep rfl (by rw [channelHeld_of_inCall hold, channelHeld_of_inCall hnew])
  · intro id hid
    rw [pendingId_of_inCall hnew] at hid
    cases hid

/-- Only the call of a subscribe takes an id. -/
theorem threadFunction_nextSubscribe {move : Move n}
    (hf : threadFunction t sh pc move = some (.step sh' pc' e)) :
    sh'.nextSubscribe = sh.nextSubscribe ∨
    ∃ name, move = .callSubscribe name ∧ sh'.nextSubscribe = sh.nextSubscribe + 1 := by
  rcases threadFunction_cases hf with hstep | ⟨hstep, -⟩
  · rcases hstep.subscriberId with ⟨-, hnext, -, -, hpending⟩ | ⟨-, hnext, -⟩
    · right
      cases hstep with
      | callSubscribe c ht name =>
          subst ht
          cases move with
          | callSubscribe name' => exact ⟨name', rfl, hnext⟩
          | callPublish name' content =>
              obtain ⟨-, hpc, -⟩ := Outcome.step.inj (Option.some.inj hf)
              cases hpc
          | callUnsubscribe k => simp [threadFunction, call] at hf
          | callFree k =>
              simp only [threadFunction, call, Option.ite_none_right_eq_some,
                Option.some.injEq] at hf
              obtain ⟨-, hf⟩ := hf
              split_ifs at hf <;> obtain ⟨-, hpc, -⟩ := Outcome.step.inj hf <;> cases hpc
          | callReceive k tryReceive => simp [threadFunction, call] at hf
          | callPendingCount k => simp [threadFunction, call] at hf
          | _ => cases hf
      | taskMore hg => cases hg <;> exact absurd hnext (Nat.ne_of_lt (Nat.lt_succ_self _))
      | taskFound hg => cases hg; exact absurd hnext (Nat.ne_of_lt (Nat.lt_succ_self _))
      | subscribeMore hg => cases hg <;> exact absurd hnext (Nat.ne_of_lt (Nat.lt_succ_self _))
      | subscribeFound hg => cases hg; exact absurd hnext (Nat.ne_of_lt (Nat.lt_succ_self _))
      | _ => exact absurd hnext (Nat.ne_of_lt (Nat.lt_succ_self _))
    · exact Or.inl hnext
  · left
    cases hstep with
    | taskMore hg => cases hg <;> rfl
    | taskFailed hg => cases hg <;> rfl
    | subscribeMore hg => cases hg <;> rfl
    | subscribeFailed hg => cases hg <;> rfl
    | _ => rfl

end

/-! ### The invariants in runs with harmless failures -/

/-- The invariants of the channels, the lists and the subscriptions. -/
structure BrokerInv (tr : List (Event n)) (s : State n) : Prop where
  channelsLock : LockInv (fun t => holdsChannels (s.pc t)) s.shared.channelsMutex
  channelLock : ∀ ch, LockInv (fun t => channelHeld (s.pc t) = some ch) (s.shared.channel ch).mutex
  table : TableInv s
  fresh : ∀ ch, s.shared.nextChannel ≤ ch →
    (s.shared.channel ch).mutex = none ∧ (s.shared.channel ch).subscriberProxies = []
  list : ListInv s
  owner : OwnerInv tr s
  target : TargetInv tr s
  id : IdInv s
  bound : s.shared.nextSubscribe < 2 ^ 64

section
variable {tr : List (Event n)} {s : State n} {t : Tid n} {sh : Shared n} {pc : Pc}
  {e : Option (Event n)}

/-- A step without a failing allocation keeps `BrokerInv`. -/
theorem brokerInv_thread (hinv : BrokerInv tr s)
    (hstep : ThreadStep t s.shared (s.pc t) sh pc e) (hbound : sh.nextSubscribe < 2 ^ 64) :
    BrokerInv (tr ++ e.toList) ⟨s.pool, sh, Function.update s.pc t pc, s.faulted⟩ := by
  have hobject := hstep.objectStep (hinv.fresh _ le_rfl).2
  refine ⟨hinv.channelsLock.update t pc hstep.channelsLockStep, ?_,
    tableInv_thread hinv.table hinv.channelsLock hstep, fresh_thread hinv.table hinv.fresh hstep,
    listInv_thread hinv.list hobject,
    ownerInv_thread hinv.owner hinv.list hinv.table hstep hobject,
    targetInv_thread hinv.target hinv.list hinv.channelLock hstep hobject,
    idInv_thread hinv.id hstep hobject hbound, hbound⟩
  intro ch
  exact (hinv.channelLock ch).update (P := fun pc => channelHeld pc = some ch) t pc
    (hstep.channelLockStep (hinv.fresh _ le_rfl).1 ch)

/-- A harmless step keeps `TableInv`. -/
theorem tableInv_harmless (hstep : HarmlessStep t s.shared (s.pc t) sh pc e)
    (hinv : TableInv s) (pool : ThreadPool.State n PublisherTaskArg) :
    TableInv ⟨pool, sh, Function.update s.pc t pc, s.faulted⟩ := by
  obtain ⟨-, -, htable, hnext, hname, -⟩ := hstep.write
  refine ⟨?_, ?_, ?_, ?_, ?_, ?_⟩
  · show sh.channels.compareKeyFunction = _
    rw [htable]
    exact hinv.compare
  · intro name ch hget
    show ch < sh.nextChannel ∧ (sh.channel ch).channelName = name
    rw [hnext, hname ch]
    exact hinv.entry name ch (htable ▸ hget)
  · refine forall_update (P := fun _ pc => ∀ name g, getting pc = some (name, g) →
      (g = .new ∨ ∃ ch, g = .insert ch) → sh.channels.get name = none) ?_ ?_
    · intro name g hgetting hg
      obtain ⟨hnew, hins⟩ := hstep.getting name g hgetting
      rw [htable]
      rcases hg with hg | ⟨ch, hg⟩
      · exact hnew hg
      · exact absurd hg (hins ch)
    · intro t' _ name g hgetting hg
      rw [htable]
      exact hinv.absent t' name g hgetting hg
  · refine forall_update (P := fun _ pc => ∀ name ch, getting pc = some (name, .insert ch) →
      ch < sh.nextChannel ∧ (sh.channel ch).channelName = name) ?_ ?_
    · intro name ch hgetting
      exact absurd rfl ((hstep.getting name _ hgetting).2 ch)
    · intro t' _ name ch hgetting
      rw [hnext, hname ch]
      exact hinv.inserting t' name ch hgetting
  · refine forall_update (P := fun _ pc => ∀ name ch, channelOf pc = some (name, ch) →
      sh.channels.get name = some ch) ?_ ?_
    · intro name ch hch
      rw [htable]
      exact hinv.found t name ch (hstep.channelOf _ hch)
    · intro t' _ name ch hch
      rw [htable]
      exact hinv.found t' name ch hch
  · refine forall_update (P := fun _ pc => ∀ ch, unsubscribeChannel pc = some ch →
      ∃ name, sh.channels.get name = some ch) ?_ ?_
    · intro ch hch
      have huns := hstep.unsubscribing.1
      cases pc <;> first | cases hch | cases huns
    · intro t' _ ch hch
      rw [htable]
      exact hinv.unsubscribe t' ch hch

/-- A harmless step keeps `TargetInv`. -/
theorem targetInv_harmless (hstep : HarmlessStep t s.shared (s.pc t) sh pc e)
    (hinv : TargetInv tr s) (pool : ThreadPool.State n PublisherTaskArg) :
    TargetInv (tr ++ e.toList) ⟨pool, sh, Function.update s.pc t pc, s.faulted⟩ := by
  have hobjects := hstep.write.objects
  constructor
  · refine forall_update (P := fun (_ : Tid n) pc => ∀ k, unsubscribing pc = some k →
      (∃ t', .unsubscribeCall t' k ∈ tr ++ e.toList) ∧ k < sh.nextSubscription) ?_ ?_
    · intro k hk
      rw [hstep.unsubscribing.1] at hk
      cases hk
    · intro t' _ k hk
      obtain ⟨⟨t₁, hcall⟩, hlt⟩ := hinv.called t' k hk
      exact ⟨⟨t₁, List.mem_append_left _ hcall⟩, by rw [hobjects.nextSubscription]; exact hlt⟩
  · refine forall_update (P := fun (_ : Tid n) pc => ∀ k ch i, targetOf pc = some (k, ch, i) →
      ∃ x, (sh.channel ch).subscriberProxies[i]? = some x ∧
        (sh.proxy x).id = (sh.subscription k).id ∧ ∀ y, freedProxy pc = some y → y = x) ?_ ?_
    · intro k ch i hk
      have huns := (channelHeld_of_target hk).2
      rw [hstep.unsubscribing.1] at huns
      cases huns
    · intro t' _ k ch i hk
      obtain ⟨x, hx, hid, hfreed⟩ := hinv.target t' k ch i hk
      refine ⟨x, by rw [hobjects.lists]; exact hx, ?_, hfreed⟩
      rw [hobjects.proxyId, hobjects.subscriptionId]
      exact hid

/-- A harmless step keeps `BrokerInv`. -/
theorem brokerInv_harmless (hinv : BrokerInv tr s)
    (hstep : HarmlessStep t s.shared (s.pc t) sh pc e)
    (pool : ThreadPool.State n PublisherTaskArg) :
    BrokerInv (tr ++ e.toList) ⟨pool, sh, Function.update s.pc t pc, s.faulted⟩ := by
  have hobjects := hstep.write.objects
  have hhands : ∀ t', HandLe (Function.update s.pc t pc t') (s.pc t') :=
    forall_update (P := fun t' pc => HandLe pc (s.pc t')) hstep.hand fun _ _ => .refl _
  refine ⟨hinv.channelsLock.update t pc hstep.channelsLock, ?_, tableInv_harmless hstep hinv.table pool,
    ?_, ?_, ?_, targetInv_harmless hstep hinv.target pool, ?_, ?_⟩
  · intro ch
    exact (hinv.channelLock ch).update (P := fun pc => channelHeld pc = some ch) t pc
      (hstep.channelLock ch)
  · intro ch hch
    obtain ⟨hmutex, hempty⟩ := hinv.fresh ch (by rw [← hstep.write.nextChannel]; exact hch)
    exact ⟨hstep.write.mutex ch hmutex, (hobjects.lists ch).trans hempty⟩
  · refine hinv.list.shrink ?_ hobjects.nextProxy hobjects.proxyChannel hhands
    intro ch
    show List.Sublist (sh.channel ch).subscriberProxies _
    rw [hobjects.lists ch]
  · refine hinv.owner.same hstep.subscribed ?_ hobjects.nextProxy hobjects.nextSubscription
      hobjects.proxyId hobjects.proxyChannel hobjects.subscriptionId hobjects.pointer
      fun t' => (hhands t').hand
    intro name ch hget
    show sh.channels.get name = some ch
    rw [hstep.write.table]
    exact hget
  · refine hinv.id.same hstep.write.subscriberId hstep.write.nextSubscribe hobjects.nextProxy
      (fun x _ => hobjects.proxyId x) ?_
    exact forall_update (P := fun t' pc => ∀ id, pendingId pc = some id →
      pendingId (s.pc t') = some id) hstep.pending fun _ _ _ h => h
  · show sh.nextSubscribe < 2 ^ 64
    rw [hstep.write.nextSubscribe]
    exact hinv.bound

end

/-- The invariant rule for runs with harmless failures. A step is a step without a failing
allocation, or a `HarmlessStep`. -/
theorem harmless_induction {I : List (Event n) → State n → Prop}
    (hinit : I [] (init capacity hcap))
    (hthread : ∀ tr s t move sh pc e, BrokerInv tr s → I tr s →
      threadFunction t s.shared (s.pc t) move = some (.step sh pc e) →
      ThreadStep t s.shared (s.pc t) sh pc e →
      I (tr ++ e.toList) ⟨s.pool, sh, Function.update s.pc t pc, s.faulted⟩)
    (hharmless : ∀ tr s t sh pc e pool, BrokerInv tr s → I tr s →
      HarmlessStep t s.shared (s.pc t) sh pc e →
      I (tr ++ e.toList) ⟨pool, sh, Function.update s.pc t pc, s.faulted⟩)
    (hfault : ∀ tr s t, I tr s → I tr { s with faulted := Function.update s.faulted t true })
    {tr : List (Event n)} {s : State n}
    (h : (machine n capacity hcap).RunIf HarmlessFailures tr s) : BrokerInv tr s ∧ I tr s := by
  refine h.induction (I := fun tr s => BrokerInv tr s ∧ I tr s) ⟨?_, hinit⟩ ?_
  · refine ⟨fun t => by simp [machine, init, holdsChannels],
      fun ch t => by simp [machine, init, channelHeld], ⟨rfl, ?_, ?_, ?_, ?_, ?_⟩,
      fun _ _ => ⟨rfl, rfl⟩, ?_, ?_, ?_, ?_, show (0 : Nat) < 2 ^ 64 by decide⟩
    · intro name ch hget
      simp [machine, init] at hget
    · intro t name g hgetting
      simp [machine, init, getting] at hgetting
    · intro t name ch hgetting
      simp [machine, init, getting] at hgetting
    · intro t name ch hch
      simp [machine, init, channelOf] at hch
    · intro t ch hch
      simp [machine, init, unsubscribeChannel] at hch
    · constructor <;> simp [machine, init, handOf, notListed]
    · constructor <;> simp [machine, init, handOf, Owned]
    · constructor <;> simp [machine, init, unsubscribing, targetOf]
    · constructor <;> simp [machine, init, pendingId]
  · intro tr s a s' e _ hinv hK hnext
    rcases next_cases hnext with ⟨b, pool, t, pc, e', -, -, rfl, hold, hnew, rfl⟩ |
        ⟨t, move, sh, pc, rfl, hf, rfl⟩ | ⟨t, rfl, rfl⟩
    · have hstep : HarmlessStep t s.shared (s.pc t) s.shared pc (e'.map Event.pool) :=
        harmlessStep_of_pool hold hnew
      exact ⟨brokerInv_harmless hinv.1 hstep pool,
        hharmless tr s t s.shared pc _ pool hinv.1 hinv.2 hstep⟩
    · have hbound : sh.nextSubscribe < 2 ^ 64 := by
        rcases threadFunction_nextSubscribe hf with hsame | ⟨name, rfl, hsucc⟩
        · rw [hsame]
          exact hinv.1.bound
        · rw [hsucc]
          exact hK
      rcases threadFunction_harmless hf hK with hstep | hstep
      · exact ⟨brokerInv_thread hinv.1 hstep hbound,
          hthread tr s t move sh pc e hinv.1 hinv.2 hf hstep⟩
      · exact ⟨brokerInv_harmless hinv.1 hstep s.pool,
          hharmless tr s t sh pc e s.pool hinv.1 hinv.2 hstep⟩
    · rw [Option.toList_none, List.append_nil]
      obtain ⟨⟨h₁, h₂, h₃, h₄, h₅, h₆, h₇, h₈, h₉⟩, hI⟩ := hinv
      exact ⟨⟨h₁, h₂, ⟨h₃.1, h₃.2, h₃.3, h₃.4, h₃.5, h₃.6⟩, h₄,
        ⟨h₅.1, h₅.2, h₅.3, h₅.4, h₅.5, h₅.6⟩, ⟨h₆.1, h₆.2, h₆.3, h₆.4, h₆.5⟩, ⟨h₇.1, h₇.2⟩,
        ⟨h₈.1, h₈.2, h₈.3, h₈.4, h₈.5, h₈.6⟩, h₉⟩, hfault tr s t hI⟩

/-! ### From a proxy to its subscription and back -/

/-- The subscription of an unsubscribe that has taken the proxy out of the list. -/
def removedFor : Pc → Option Nat
  | .unsubscribe k _ u =>
      match u with
      | .unlockChannel _ | .unlockChannels | .clearActive | .clearProxy => some k
      | _ => none
  | _ => none

/-- The subscription of an unsubscribe that has still to take the proxy out of the list. -/
def removingFor : Pc → Option Nat
  | .unsubscribe k _ u =>
      match u with
      | .unlockChannel _ | .unlockChannels | .clearActive | .clearProxy => none
      | _ => some k
  | _ => none

/-- What a step does to a subscription and to an unsubscribe under way. -/
structure ListedStep (t : Tid n) (sh : Shared n) (pc : Pc) (sh' : Shared n) (pc' : Pc)
    (e : Option (Event n)) : Prop where
  channelName : ∀ k, k < sh.nextSubscription →
    (sh'.subscription k).channelName = (sh.subscription k).channelName
  active : ∀ k, k < sh.nextSubscription → (sh'.subscription k).active = false →
    (sh.subscription k).active = false ∨ removedFor pc = some k
  removed : ∀ k, removedFor pc' = some k → removedFor pc = some k ∨
    (∃ ch, unsubscribing pc = some k ∧ unsubscribeChannel pc = some ch ∧ sh' = sh ∧
      ∀ x ∈ (sh.channel ch).subscriberProxies, (sh.proxy x).id ≠ (sh.subscription k).id) ∨
    (∃ ch i, targetOf pc = some (k, ch, i) ∧ sh' = sh.setChannel ch { sh.channel ch with
      subscriberProxies := (sh.channel ch).subscriberProxies.eraseIdx i }) ∨
    (unsubscribing pc = some k ∧ sh.channels.get (sh.subscription k).channelName = none)
  search : ∀ k ch, unsubscribing pc' = some k → unsubscribeChannel pc' = some ch →
    (unsubscribing pc = some k ∧ unsubscribeChannel pc = some ch) ∨
    (unsubscribing pc = some k ∧ sh.channels.get (sh.subscription k).channelName = some ch)
  inserted : ∀ x, insertedProxy pc' = some x → insertedProxy pc = some x ∨
    ∃ ch, notListed pc = some (ch, x) ∧ sh' = sh.setChannel ch { sh.channel ch with
      subscriberProxies := (sh.channel ch).subscriberProxies ++ [x] }
  handed : ∀ x, insertedProxy pc = some x → insertedProxy pc' = some x ∨
    ∃ k name, e = some (.subscribed t k x name)
  call : ∀ t' k, e = some (.unsubscribeCall t' k) →
    removingFor pc' = some k ∧ k < sh.nextSubscription
  removing : ∀ k, removingFor pc = some k → removingFor pc' = some k ∨ removedFor pc' = some k ∨
    ∃ thenFree, pc = .unsubscribe k thenFree .testActive ∧ unsubscribing pc' = none

section
variable {t : Tid n} {sh sh' : Shared n} {pc pc' : Pc} {e : Option (Event n)}

/-- A step that writes no subscription and is outside the unsubscribes and the end of a
subscribe. -/
theorem listedStep_of_other (hsub : ∀ k, k < sh.nextSubscription →
      sh'.subscription k = sh.subscription k)
    (huns : unsubscribing pc' = none ∧ unsubscribing pc = none)
    (hinserted : insertedProxy pc' = none ∧ insertedProxy pc = none)
    (hcall : ∀ t' k, e ≠ some (.unsubscribeCall t' k)) : ListedStep t sh pc sh' pc' e := by
  have hremoved : ∀ {pc : Pc}, unsubscribing pc = none →
      removedFor pc = none ∧ removingFor pc = none := by
    intro pc h
    cases pc <;> first | exact ⟨rfl, rfl⟩ | cases h
  refine ⟨fun k hk => by rw [hsub k hk], fun k hk h => Or.inl (hsub k hk ▸ h), ?_, ?_, ?_, ?_, ?_,
    ?_⟩
  · intro k hk
    rw [(hremoved huns.1).1] at hk
    cases hk
  · intro k ch hk
    rw [huns.1] at hk
    cases hk
  · intro x hx
    rw [hinserted.1] at hx
    cases hx
  · intro x hx
    rw [hinserted.2] at hx
    cases hx
  · intro t' k h
    exact absurd h (hcall t' k)
  · intro k hk
    rw [(hremoved huns.2).2] at hk
    cases hk

/-- A step of an unsubscribe before it has taken the proxy out of the list. -/
theorem listedStep_of_removing {k : Nat} (hsub : sh'.subscription = sh.subscription)
    (hpc : removingFor pc = some k) (hpc' : removingFor pc' = some k)
    (hsearch : ∀ ch, unsubscribeChannel pc' = some ch → unsubscribeChannel pc = some ch ∨
      sh.channels.get (sh.subscription k).channelName = some ch) :
    ListedStep t sh pc sh' pc' none := by
  have hfacts : ∀ {pc : Pc}, removingFor pc = some k →
      removedFor pc = none ∧ unsubscribing pc = some k ∧ insertedProxy pc = none := by
    intro pc h
    cases pc with
    | unsubscribe k' thenFree u => cases u <;> first | exact ⟨rfl, h, rfl⟩ | cases h
    | _ => cases h
  obtain ⟨hrem, huns, hins⟩ := hfacts hpc
  obtain ⟨hrem', huns', hins'⟩ := hfacts hpc'
  refine ⟨fun k' _ => by rw [hsub], fun k' _ h => Or.inl (hsub ▸ h), ?_, ?_, ?_, ?_, ?_, ?_⟩
  · intro k' hk'
    rw [hrem'] at hk'
    cases hk'
  · intro k' ch hk' hch
    obtain rfl : k = k' := Option.some.inj (huns'.symm.trans hk')
    rcases hsearch ch hch with h | h
    · exact Or.inl ⟨huns, h⟩
    · exact Or.inr ⟨huns, h⟩
  · intro x hx
    rw [hins'] at hx
    cases hx
  · intro x hx
    rw [hins] at hx
    cases hx
  · intro t' k' h
    cases h
  · intro k' hk'
    obtain rfl : k = k' := Option.some.inj (hpc.symm.trans hk')
    exact Or.inl hpc'

/-- A step of a thread takes the steps of `ListedStep`. -/
theorem ThreadStep.listedStep (h : ThreadStep t sh pc sh' pc' e) :
    ListedStep t sh pc sh' pc' e := by
  have hnone : ∀ (t' : Tid n) k, none ≠ some (Event.unsubscribeCall t' k) := by
    intro t' k hx
    cases hx
  have hsame : ∀ k, k < sh.nextSubscription → sh.subscription k = sh.subscription k :=
    fun _ _ => rfl
  cases h with
  | taskMore hg =>
      exact listedStep_of_other (fun _ _ => by cases hg <;> rfl) ⟨rfl, rfl⟩ ⟨rfl, rfl⟩ hnone
  | taskFound hg =>
      exact listedStep_of_other (fun _ _ => by cases hg; rfl) ⟨rfl, rfl⟩ ⟨rfl, rfl⟩ hnone
  | subscribeMore hg =>
      exact listedStep_of_other (fun _ _ => by cases hg <;> rfl) ⟨rfl, rfl⟩ ⟨rfl, rfl⟩ hnone
  | subscribeFound hg =>
      exact listedStep_of_other (fun _ _ => by cases hg; rfl) ⟨rfl, rfl⟩ ⟨rfl, rfl⟩ hnone
  | callPublish c ht name content =>
      exact listedStep_of_other hsame ⟨rfl, rfl⟩ ⟨rfl, rfl⟩ (by rintro t' k ⟨⟩)
  | callSubscribe c ht name =>
      exact listedStep_of_other hsame ⟨rfl, rfl⟩ ⟨rfl, rfl⟩ (by rintro t' k ⟨⟩)
  | fanout ch hfree => exact listedStep_of_other hsame ⟨rfl, rfl⟩ ⟨rfl, rfl⟩ (by rintro t' k ⟨⟩)
  | put ch i x => exact listedStep_of_other hsame ⟨rfl, rfl⟩ ⟨rfl, rfl⟩ (by rintro t' k ⟨⟩)
  | got x => exact listedStep_of_other hsame ⟨rfl, rfl⟩ ⟨rfl, rfl⟩ (by rintro t' k ⟨⟩)
  | receiveRead hret =>
      rcases hret with ⟨r', rfl, rfl⟩ | ⟨rfl, rfl⟩ <;>
        exact listedStep_of_other hsame ⟨rfl, rfl⟩ ⟨rfl, rfl⟩ (by rintro t' k ⟨⟩)
  | receiveInbox x p hp hinbox hret =>
      rcases hret with ⟨r', rfl, rfl⟩ | ⟨rfl, rfl⟩ <;>
        exact listedStep_of_other hsame ⟨rfl, rfl⟩ ⟨rfl, rfl⟩ (by rintro t' k ⟨⟩)
  | pendingRead hret =>
      rcases hret with ⟨rfl, rfl⟩ | ⟨rfl, count, rfl⟩ <;>
        exact listedStep_of_other hsame ⟨rfl, rfl⟩ ⟨rfl, rfl⟩ (by rintro t' k ⟨⟩)
  | callUnsubscribe c ht k thenFree hk =>
      refine ⟨fun _ _ => rfl, fun _ _ h => Or.inl h, ?_, ?_, ?_, ?_, ?_, ?_⟩
      · rintro k' ⟨⟩
      · rintro k' ch - ⟨⟩
      · rintro x ⟨⟩
      · rintro x ⟨⟩
      · rintro t' k' ⟨⟩
        exact ⟨rfl, hk⟩
      · rintro k' ⟨⟩
  | insertLast ch x =>
      refine ⟨fun _ _ => rfl, fun _ _ h => Or.inl h, ?_, ?_, ?_, ?_, ?_, ?_⟩
      · rintro k' ⟨⟩
      · rintro k' ch ⟨⟩
      · rintro y ⟨⟩
        exact Or.inr ⟨ch, rfl, rfl⟩
      · rintro y ⟨⟩
      · rintro t' k' ⟨⟩
      · rintro k' ⟨⟩
  | subscribeUnlock ch x =>
      refine ⟨fun _ _ => rfl, fun _ _ h => Or.inl h, ?_, ?_, fun _ h => Or.inl h,
        fun _ h => Or.inl h, ?_, ?_⟩
      · rintro k' ⟨⟩
      · rintro k' ch ⟨⟩
      · rintro t' k' ⟨⟩
      · rintro k' ⟨⟩
  | @newSubscription name id x =>
      have hold : ∀ k, k < sh.nextSubscription →
          (sh.newSubscription id name x).subscription k = sh.subscription k :=
        fun k hk => Function.update_of_ne (Nat.ne_of_lt hk) _ _
      refine ⟨fun k hk => by rw [hold k hk], fun k hk h => Or.inl (hold k hk ▸ h), ?_, ?_, ?_, ?_,
        ?_, ?_⟩
      · rintro k' ⟨⟩
      · rintro k' ch ⟨⟩
      · rintro y ⟨⟩
      · rintro y ⟨⟩
        exact Or.inr ⟨_, name, rfl⟩
      · rintro t' k' ⟨⟩
      · rintro k' ⟨⟩
  | unsubscribeTest u u' hu =>
      rcases hu with ⟨rfl, rfl⟩ | ⟨rfl, rfl | rfl⟩ <;>
        exact listedStep_of_removing rfl rfl rfl (by rintro ch ⟨⟩)
  | unsubscribeInactive hret =>
      rcases hret with ⟨rfl, rfl⟩ | ⟨rfl, rfl⟩ <;>
      · refine ⟨fun _ _ => rfl, fun _ _ h => Or.inl h, ?_, ?_, ?_, ?_, ?_, ?_⟩
        · rintro k' ⟨⟩
        · rintro k' ch ⟨⟩
        · rintro x ⟨⟩
        · rintro x ⟨⟩
        · rintro t' k' ⟨⟩
        · rintro k' ⟨⟩
          exact Or.inr (Or.inr ⟨_, rfl, rfl⟩)
  | deactivate x hx => exact listedStep_of_removing rfl rfl rfl (by rintro ch ⟨⟩)
  | unsubscribeInbox x p u u' hp hinbox hu =>
      rcases hu with ⟨rfl, rfl⟩ | ⟨rfl, rfl⟩ | ⟨rfl, rfl⟩ <;>
        exact listedStep_of_removing rfl rfl rfl (by rintro ch ⟨⟩)
  | unsubscribeLockChannels hfree => exact listedStep_of_removing rfl rfl rfl (by rintro ch ⟨⟩)
  | unsubscribeHit ch hget =>
      refine listedStep_of_removing rfl rfl rfl ?_
      rintro ch' ⟨⟩
      exact Or.inr hget
  | unsubscribeMiss hget =>
      refine ⟨fun _ _ => rfl, fun _ _ h => Or.inl h, ?_, ?_, ?_, ?_, ?_, ?_⟩
      · rintro k' ⟨⟩
        exact Or.inr (Or.inr (Or.inr ⟨rfl, hget⟩))
      · rintro k' ch - ⟨⟩
      · rintro x ⟨⟩
      · rintro x ⟨⟩
      · rintro t' k' ⟨⟩
      · rintro k' ⟨⟩
        exact Or.inr (Or.inl rfl)
  | unsubscribeLockChannel ch hfree => exact listedStep_of_removing rfl rfl rfl fun _ h => Or.inl h
  | searchMiss ch hmiss =>
      refine ⟨fun _ _ => rfl, fun _ _ h => Or.inl h, ?_, ?_, ?_, ?_, ?_, ?_⟩
      · rintro k' ⟨⟩
        exact Or.inr (Or.inl ⟨ch, rfl, rfl, rfl, hmiss⟩)
      · intro k' ch' hk' hch'
        exact Or.inl ⟨hk', hch'⟩
      · rintro x ⟨⟩
      · rintro x ⟨⟩
      · rintro t' k' ⟨⟩
      · rintro k' ⟨⟩
        exact Or.inr (Or.inl rfl)
  | searchHit ch i x hx hid => exact listedStep_of_removing rfl rfl rfl fun _ h => Or.inl h
  | freeDeactivate ch i x => exact listedStep_of_removing rfl rfl rfl fun _ h => Or.inl h
  | freeInbox ch i x p f f' hp hinbox hf =>
      exact listedStep_of_removing rfl rfl rfl fun _ h => Or.inl h
  | freeRelease ch i x => exact listedStep_of_removing rfl rfl rfl fun _ h => Or.inl h
  | unlink ch i =>
      refine ⟨fun _ _ => rfl, fun _ _ h => Or.inl h, ?_, ?_, ?_, ?_, ?_, ?_⟩
      · rintro k' ⟨⟩
        exact Or.inr (Or.inr (Or.inl ⟨ch, i, rfl, rfl⟩))
      · intro k' ch' hk' hch'
        exact Or.inl ⟨hk', hch'⟩
      · rintro x ⟨⟩
      · rintro x ⟨⟩
      · rintro t' k' ⟨⟩
      · rintro k' ⟨⟩
        exact Or.inr (Or.inl rfl)
  | unsubscribeUnlockChannel ch =>
      refine ⟨fun _ _ => rfl, fun _ _ h => Or.inl h, fun _ h => Or.inl h, ?_, ?_, ?_, ?_, ?_⟩
      · rintro k' ch - ⟨⟩
      · rintro x ⟨⟩
      · rintro x ⟨⟩
      · rintro t' k' ⟨⟩
      · rintro k' ⟨⟩
  | unsubscribeUnlockChannels =>
      refine ⟨fun _ _ => rfl, fun _ _ h => Or.inl h, fun _ h => Or.inl h, ?_, ?_, ?_, ?_, ?_⟩
      · rintro k' ch - ⟨⟩
      · rintro x ⟨⟩
      · rintro x ⟨⟩
      · rintro t' k' ⟨⟩
      · rintro k' ⟨⟩
  | @clearActive k thenFree =>
      refine ⟨?_, ?_, fun _ h => Or.inl h, ?_, ?_, ?_, ?_, ?_⟩
      · intro k' _
        by_cases hk : k' = k
        · subst hk
          simp [Shared.setSubscription]
        · simp [Shared.setSubscription, Function.update_of_ne hk]
      · intro k' _ hactive
        by_cases hk : k' = k
        · subst hk
          exact Or.inr rfl
        · left
          simpa [Shared.setSubscription, Function.update_of_ne hk] using hactive
      · rintro k' ch - ⟨⟩
      · rintro x ⟨⟩
      · rintro x ⟨⟩
      · rintro t' k' ⟨⟩
      · rintro k' ⟨⟩
  | @clearProxy k thenFree pc' e hret =>
      rcases hret with ⟨rfl, rfl⟩ | ⟨rfl, rfl⟩ <;>
      · refine ⟨?_, ?_, ?_, ?_, ?_, ?_, ?_, ?_⟩
        · intro k' _
          by_cases hk : k' = k
          · subst hk
            simp [Shared.setSubscription]
          · simp [Shared.setSubscription, Function.update_of_ne hk]
        · intro k' _ hactive
          left
          by_cases hk : k' = k
          · subst hk
            simpa [Shared.setSubscription] using hactive
          · simpa [Shared.setSubscription, Function.update_of_ne hk] using hactive
        · rintro k' ⟨⟩
        · rintro k' ch ⟨⟩
        · rintro x ⟨⟩
        · rintro x ⟨⟩
        · rintro t' k' ⟨⟩
        · rintro k' ⟨⟩
  | release k =>
      refine ⟨?_, ?_, ?_, ?_, ?_, ?_, ?_, ?_⟩
      · intro k' _
        by_cases hk : k' = k
        · subst hk
          simp [Shared.setSubscription]
        · simp [Shared.setSubscription, Function.update_of_ne hk]
      · intro k' _ hactive
        left
        by_cases hk : k' = k
        · subst hk
          simpa [Shared.setSubscription] using hactive
        · simpa [Shared.setSubscription, Function.update_of_ne hk] using hactive
      · rintro k' ⟨⟩
      · rintro k' ch ⟨⟩
      · rintro x ⟨⟩
      · rintro x ⟨⟩
      · rintro t' k' ⟨⟩
      · rintro k' ⟨⟩
  | _ => exact listedStep_of_other hsame ⟨rfl, rfl⟩ ⟨rfl, rfl⟩ hnone

end

/-- The proxy is in no list. -/
def Unlisted (sh : Shared n) (x : Nat) : Prop := ∀ ch, x ∉ (sh.channel ch).subscriberProxies

/-- An unsubscribe of the subscription has been called. -/
def Unsubscribed (tr : List (Event n)) (k : Nat) : Prop := ∃ t, .unsubscribeCall t k ∈ tr

/-- A listed proxy belongs to a subscribe under way or to a subscription, and the proxy of a
subscription is listed until an unsubscribe takes it out. -/
structure ListedInv (tr : List (Event n)) (s : State n) : Prop where
  name : ∀ t k x name, .subscribed t k x name ∈ tr → (s.shared.subscription k).channelName = name
  search : ∀ t k ch x, unsubscribing (s.pc t) = some k → unsubscribeChannel (s.pc t) = some ch →
    Owned tr k x → (s.shared.proxy x).channel = ch
  owner : ∀ ch x, x ∈ (s.shared.channel ch).subscriberProxies →
    (∃ t, insertedProxy (s.pc t) = some x) ∨ ∃ k, Owned tr k x
  inserted : ∀ t x, insertedProxy (s.pc t) = some x →
    x ∈ (s.shared.channel (s.shared.proxy x).channel).subscriberProxies
  listed : ∀ k x, Owned tr k x → ¬ Unsubscribed tr k →
    x ∈ (s.shared.channel (s.shared.proxy x).channel).subscriberProxies
  removed : ∀ t k x, removedFor (s.pc t) = some k → Owned tr k x → Unlisted s.shared x
  inactive : ∀ k x, (s.shared.subscription k).active = false → Owned tr k x → Unlisted s.shared x
  called : ∀ k, Unsubscribed tr k → k < s.shared.nextSubscription ∧
    ∀ x, Owned tr k x → Unlisted s.shared x ∨ ∃ t, removingFor (s.pc t) = some k

section
variable {tr : List (Event n)} {s : State n} {t : Tid n} {sh : Shared n} {pc : Pc}
  {e : Option (Event n)}

/-- What a step of a thread does to the members of the lists. -/
theorem ObjectStep.mem {sh₀ : Shared n} {pc₀ : Pc} (h : ObjectStep t sh₀ pc₀ sh pc e)
    {ch x : Nat} :
    (x ∈ (sh.channel ch).subscriberProxies → x ∈ (sh₀.channel ch).subscriberProxies ∨
      ∃ name id, pc₀ = .subscribe name id (.insertLast ch x) ∧
        pc = .subscribe name id (.unlockChannel ch x)) ∧
    (x ∈ (sh₀.channel ch).subscriberProxies → x ∈ (sh.channel ch).subscriberProxies ∨
      ∃ k i, targetOf pc₀ = some (k, ch, i) ∧ (sh₀.channel ch).subscriberProxies[i]? = some x) := by
  cases h with
  | newProxy name id ch' hpc hsh hpc' he =>
      subst hsh
      exact ⟨Or.inl, Or.inl⟩
  | insertLast name id ch' y hpc hsh hpc' he =>
      subst hsh
      rw [setChannel_channel]
      by_cases hch : ch = ch'
      · subst hch
        rw [if_pos rfl]
        refine ⟨?_, fun h => Or.inl (List.mem_append_left _ h)⟩
        intro hx
        rcases List.mem_append.mp hx with hx | hx
        · exact Or.inl hx
        · rw [List.mem_singleton.mp hx]
          exact Or.inr ⟨name, id, hpc, hpc'⟩
      · rw [if_neg hch]
        exact ⟨Or.inl, Or.inl⟩
  | unlink k thenFree ch' i hpc hsh hpc' he =>
      subst hsh
      rw [setChannel_channel]
      by_cases hch : ch = ch'
      · subst hch
        rw [if_pos rfl]
        refine ⟨fun h => Or.inl ((List.eraseIdx_sublist _ _).subset h), ?_⟩
        intro hx
        obtain ⟨j, hj⟩ := List.mem_iff_getElem?.mp hx
        by_cases hji : j = i
        · subst hji
          exact Or.inr ⟨k, j, by rw [hpc]; rfl, hj⟩
        · exact Or.inl (List.mem_eraseIdx_iff_getElem?.mpr ⟨j, hji, hj⟩)
      · rw [if_neg hch]
        exact ⟨Or.inl, Or.inl⟩
  | newSubscription name id y hpc hsh hpc' he =>
      subst hsh
      exact ⟨Or.inl, Or.inl⟩
  | other hsame hhand hlisted he =>
      rw [hsame.lists ch]
      exact ⟨Or.inl, Or.inl⟩

/-- A proxy that has an owner is in no hand, so it is not put into a list again. -/
theorem unlisted_thread (hinv : BrokerInv tr s)
    (hobject : ObjectStep t s.shared (s.pc t) sh pc e) {k x : Nat} (howned : Owned tr k x)
    (h : Unlisted s.shared x) : Unlisted sh x := by
  intro ch hx
  rcases hobject.mem.1 hx with hx | ⟨name, id, hpc, -⟩
  · exact h ch hx
  · have hhand : handOf (s.pc t) = some (name, id, x) := by rw [hpc]; rfl
    exact (hinv.owner.hand t name id x hhand).2.2 k howned

/-- The proxy that an unsubscribe takes out of the list is the proxy of its subscription. -/
theorem owned_of_target (hinv : BrokerInv tr s) {k ch i x : Nat}
    (htarget : targetOf (s.pc t) = some (k, ch, i))
    (hx : (s.shared.channel ch).subscriberProxies[i]? = some x) :
    Owned tr k x ∧ Unsubscribed tr k := by
  obtain ⟨y, hy, hyid, -⟩ := hinv.target.target t k ch i htarget
  obtain rfl : x = y := Option.some.inj (hx.symm.trans hy)
  obtain ⟨hcall, hk⟩ := hinv.target.called t k (channelHeld_of_target htarget).2
  obtain ⟨z, t₁, name, hz⟩ := hinv.owner.owner k hk
  obtain ⟨-, hzlt, hzid, -⟩ := hinv.owner.owned t₁ k z name hz
  have hxlt := hinv.list.bound ch x (List.mem_of_getElem? hx)
  obtain rfl := hinv.id.unique x z hxlt hzlt (hyid.trans hzid)
  exact ⟨⟨t₁, name, hz⟩, hcall⟩

/-- What is handed out after a step of a thread. -/
theorem owned_append (hobject : ObjectStep t s.shared (s.pc t) sh pc e) {k x : Nat}
    (h : Owned (tr ++ e.toList) k x) :
    Owned tr k x ∨ (k = s.shared.nextSubscription ∧ ∃ name id,
      s.pc t = .subscribe name id (.newSubscription x) ∧
      sh = s.shared.newSubscription id name x) := by
  obtain ⟨t', name', hmem⟩ := h
  cases hobject with
  | newSubscription name id y hpc hsh hpc' he =>
      subst he
      rcases List.mem_append.mp hmem with hmem | hmem
      · exact Or.inl ⟨t', name', hmem⟩
      · obtain ⟨-, rfl, rfl, -⟩ : t' = t ∧ k = s.shared.nextSubscription ∧ x = y ∧ name' = name := by
          simpa using hmem
        exact Or.inr ⟨rfl, name, id, hpc, hsh⟩
  | newProxy name id ch hpc hsh hpc' he =>
      subst he
      exact Or.inl ⟨t', name', by simpa using hmem⟩
  | insertLast name id ch y hpc hsh hpc' he =>
      subst he
      exact Or.inl ⟨t', name', by simpa using hmem⟩
  | unlink k' thenFree ch i hpc hsh hpc' he =>
      subst he
      exact Or.inl ⟨t', name', by simpa using hmem⟩
  | other hsame hhand hlisted he => exact Or.inl ⟨t', name', subscribed_mem_append he hmem⟩

/-- A subscription that existed before the step got its proxy before the step. -/
theorem owned_of_lt (hobject : ObjectStep t s.shared (s.pc t) sh pc e) {k x : Nat}
    (hk : k < s.shared.nextSubscription) (h : Owned (tr ++ e.toList) k x) : Owned tr k x := by
  rcases owned_append hobject h with h | ⟨rfl, -⟩
  · exact h
  · exact absurd hk (Nat.lt_irrefl _)

/-- A step of a thread keeps a proxy of a subscription in the list, unless an unsubscribe of this
subscription has been called. -/
theorem listed_of_step (hinv : BrokerInv tr s)
    (hobject : ObjectStep t s.shared (s.pc t) sh pc e) {x : Nat} (hx : x < s.shared.nextProxy)
    (hnot : ∀ k, Owned tr k x → ¬ Unsubscribed tr k)
    (h : x ∈ (s.shared.channel (s.shared.proxy x).channel).subscriberProxies) :
    x ∈ (sh.channel (sh.proxy x).channel).subscriberProxies := by
  rw [(hobject.frame.2.1.2 x hx).2]
  rcases hobject.mem.2 h with h | ⟨k, i, htarget, hi⟩
  · exact h
  · obtain ⟨howned, hcall⟩ := owned_of_target hinv htarget hi
    exact absurd hcall (hnot k howned)

/-- An unsubscribe that has not found the proxy, or has just taken it out, leaves it in no
list. -/
theorem unlisted_of_removed (hinv : BrokerInv tr s) (hl : ListedInv tr s)
    (hobject : ObjectStep t s.shared (s.pc t) sh pc e)
    (hlisted : ListedStep t s.shared (s.pc t) sh pc e) {k x : Nat} (hk : removedFor pc = some k)
    (howned : Owned tr k x) : Unlisted sh x := by
  obtain ⟨t₁, name, hmem⟩ := howned
  have howned : Owned tr k x := ⟨t₁, name, hmem⟩
  obtain ⟨-, hxlt, hid, hget⟩ := hinv.owner.owned t₁ k x name hmem
  rcases hlisted.removed k hk with hold | ⟨ch, huns, hch, rfl, hmiss⟩ |
      ⟨ch, i, htarget, rfl⟩ | ⟨huns, hnone⟩
  · exact unlisted_thread hinv hobject howned (hl.removed t k x hold howned)
  · -- The search has gone through the list of the channel of the proxy.
    intro ch' hx
    obtain rfl : ch' = ch :=
      (hinv.list.home ch' x hx).symm.trans (hl.search t k ch x huns hch howned)
    exact hmiss x hx hid.symm
  · -- The position that goes is the only one of the proxy.
    obtain ⟨y, hy, hyid, -⟩ := hinv.target.target t k ch i htarget
    have hylt := hinv.list.bound ch y (List.mem_of_getElem? hy)
    obtain rfl := hinv.id.unique y x hylt hxlt (hyid.trans hid)
    intro ch' hx
    rw [setChannel_channel] at hx
    by_cases hch : ch' = ch
    · rw [if_pos hch] at hx
      obtain ⟨j, hji, hj⟩ := List.mem_eraseIdx_iff_getElem?.mp hx
      have hlt : j < (s.shared.channel ch).subscriberProxies.length :=
        (List.getElem?_eq_some_iff.mp hj).1
      exact hji ((List.getElem?_inj hlt (hinv.list.nodup ch)).mp (hj.trans hy.symm))
    · rw [if_neg hch] at hx
      have hhome := hinv.list.home ch' y hx
      rw [hinv.list.home ch y (List.mem_of_getElem? hy)] at hhome
      exact hch hhome.symm
  · rw [hl.name t₁ k x name hmem, hget] at hnone
    cases hnone

/-- The proxy that a subscribe has put into the list is the one it has in hand. -/
theorem handOf_of_inserted {pc : Pc} {x : Nat} (h : insertedProxy pc = some x) :
    ∃ name id, handOf pc = some (name, id, x) := by
  cases pc with
  | subscribe name id u => cases u <;> cases h <;> exact ⟨name, id, rfl⟩
  | _ => cases h

/-- An unsubscribe that has taken the proxy out is an unsubscribe of its subscription. -/
theorem unsubscribing_of_removed {pc : Pc} {k : Nat} (h : removedFor pc = some k) :
    unsubscribing pc = some k := by
  cases pc with
  | unsubscribe k' thenFree u => cases u <;> first | exact h | cases h
  | _ => cases h

/-- An unsubscribe that has still to take the proxy out is an unsubscribe of its subscription. -/
theorem unsubscribing_of_removing {pc : Pc} {k : Nat} (h : removingFor pc = some k) :
    unsubscribing pc = some k := by
  cases pc with
  | unsubscribe k' thenFree u => cases u <;> first | exact h | cases h
  | _ => cases h

/-- An unsubscribe that returns at once has found its subscription inactive. -/
theorem inactive_of_return {move : Move n} {k : Nat} {thenFree : Bool} {sh₀ : Shared n}
    (hf : threadFunction t sh₀ (.unsubscribe k thenFree .testActive) move
      = some (.step sh pc e)) (hpc : unsubscribing pc = none) :
    (sh₀.subscription k).active = false := by
  cases move with
  | go =>
      simp only [threadFunction, subscriptionUnsubscribe, derefSubscription_eq_step,
        Option.some.injEq] at hf
      obtain ⟨-, hf⟩ := hf
      cases hactive : (sh₀.subscription k).active with
      | false => rfl
      | true =>
          rw [hactive, if_pos rfl] at hf
          obtain ⟨-, rfl, -⟩ := Outcome.step.inj hf
          cases hpc
  | _ => cases hf

/-- The names and the searches after a step of a thread. -/
theorem listedInv_search (hinv : BrokerInv tr s) (hl : ListedInv tr s)
    (hobject : ObjectStep t s.shared (s.pc t) sh pc e)
    (hlisted : ListedStep t s.shared (s.pc t) sh pc e) :
    (∀ t' k x name, .subscribed t' k x name ∈ tr ++ e.toList →
      (sh.subscription k).channelName = name) ∧
    (∀ t' k ch x, unsubscribing (Function.update s.pc t pc t') = some k →
      unsubscribeChannel (Function.update s.pc t pc t') = some ch →
      Owned (tr ++ e.toList) k x → (sh.proxy x).channel = ch) := by
  constructor
  · intro t' k x name hmem
    rcases List.mem_append.mp hmem with hmem | hmem
    · rw [hlisted.channelName k (hinv.owner.owned t' k x name hmem).1]
      exact hl.name t' k x name hmem
    · have he : e = some (.subscribed t' k x name) := by simpa using hmem
      cases hobject with
      | newSubscription name' id y hpc hsh hpc' he' =>
          rw [he] at he'
          cases he'
          subst hsh
          simp [Shared.newSubscription, Shared.setSubscription]
      | newProxy name' id ch hpc hsh hpc' he' => rw [he] at he'; cases he'
      | insertLast name' id ch y hpc hsh hpc' he' => rw [he] at he'; cases he'
      | unlink k' thenFree ch i hpc hsh hpc' he' => rw [he] at he'; cases he'
      | other hsame hhand hnot he' => cases he' _ he
  · -- An unsubscribe that works on a channel has found it under the name of its subscription.
    have hchannel : ∀ {k x}, Owned tr k x → (sh.proxy x).channel = (s.shared.proxy x).channel := by
      rintro k x ⟨t₁, name, hmem⟩
      exact (hobject.frame.2.1.2 x (hinv.owner.owned t₁ k x name hmem).2.1).2
    refine forall_update (P := fun (_ : Tid n) pc => ∀ k ch x, unsubscribing pc = some k →
      unsubscribeChannel pc = some ch → Owned (tr ++ e.toList) k x → (sh.proxy x).channel = ch)
      ?_ ?_
    · intro k ch x hk hch howned
      rcases hlisted.search k ch hk hch with ⟨hold, holdCh⟩ | ⟨hold, hget⟩
      · have howned := owned_of_lt hobject (hinv.target.called t k hold).2 howned
        rw [hchannel howned]
        exact hl.search t k ch x hold holdCh howned
      · have howned := owned_of_lt hobject (hinv.target.called t k hold).2 howned
        rw [hchannel howned]
        obtain ⟨t₁, name, hmem⟩ := howned
        have hfound := (hinv.owner.owned t₁ k x name hmem).2.2.2
        rw [← hl.name t₁ k x name hmem, hget] at hfound
        exact (Option.some.inj hfound).symm
    · intro t' _ k ch x hk hch howned
      have howned := owned_of_lt hobject (hinv.target.called t' k hk).2 howned
      rw [hchannel howned]
      exact hl.search t' k ch x hk hch howned

/-- The owners of the listed proxies after a step of a thread. -/
theorem listedInv_owner (hl : ListedInv tr s)
    (hobject : ObjectStep t s.shared (s.pc t) sh pc e)
    (hlisted : ListedStep t s.shared (s.pc t) sh pc e) (ch x : Nat)
    (hx : x ∈ (sh.channel ch).subscriberProxies) :
    (∃ t', insertedProxy (Function.update s.pc t pc t') = some x) ∨
      ∃ k, Owned (tr ++ e.toList) k x := by
  rcases hobject.mem.1 hx with hx | ⟨name, id, -, hpc⟩
  · rcases hl.owner ch x hx with ⟨t', ht'⟩ | ⟨k, hk⟩
    · by_cases htt : t' = t
      · subst htt
        rcases hlisted.handed x ht' with h | ⟨k, name, he⟩
        · exact Or.inl ⟨t', by rw [Function.update_self]; exact h⟩
        · exact Or.inr ⟨k, t', name, by rw [he]; simp⟩
      · exact Or.inl ⟨t', by rw [Function.update_of_ne htt]; exact ht'⟩
    · exact Or.inr ⟨k, hk.append⟩
  · -- The step has put the proxy into the list.
    refine Or.inl ⟨t, ?_⟩
    rw [Function.update_self, hpc]
    rfl

/-- A step of a thread keeps `ListedInv`. -/
theorem listedInv_thread {move : Move n} (hinv : BrokerInv tr s) (hl : ListedInv tr s)
    (hf : threadFunction t s.shared (s.pc t) move = some (.step sh pc e))
    (hstep : ThreadStep t s.shared (s.pc t) sh pc e) :
    ListedInv (tr ++ e.toList) ⟨s.pool, sh, Function.update s.pc t pc, s.faulted⟩ := by
  have hobject := hstep.objectStep (hinv.fresh _ le_rfl).2
  have hlisted := hstep.listedStep
  have hnext := hobject.frame.2.2.1
  have howned_lt : ∀ {k x}, Owned tr k x → k < s.shared.nextSubscription ∧
      x < s.shared.nextProxy := by
    rintro k x ⟨t₁, name, hmem⟩
    obtain ⟨hk, hx, -⟩ := hinv.owner.owned t₁ k x name hmem
    exact ⟨hk, hx⟩
  have hinserted : ∀ t' x, insertedProxy (s.pc t') = some x →
      x ∈ (sh.channel (sh.proxy x).channel).subscriberProxies := by
    intro t' x hx
    obtain ⟨name, id, hhand⟩ := handOf_of_inserted hx
    refine listed_of_step hinv hobject (hinv.list.hand t' name id x hhand) ?_ (hl.inserted t' x hx)
    intro k howned
    exact absurd howned ((hinv.owner.hand t' name id x hhand).2.2 k)
  have hremoved : ∀ t' k x, removedFor (Function.update s.pc t pc t') = some k →
      Owned (tr ++ e.toList) k x → Unlisted sh x := by
    refine forall_update (P := fun (_ : Tid n) pc => ∀ k x, removedFor pc = some k →
      Owned (tr ++ e.toList) k x → Unlisted sh x) ?_ ?_
    · intro k x hk howned
      have hold : k < s.shared.nextSubscription := by
        rcases hstep.unsubscribing (unsubscribing_of_removed hk) with h | ⟨-, h⟩
        · exact (hinv.target.called t k h).2
        · exact h
      exact unlisted_of_removed hinv hl hobject hlisted hk (owned_of_lt hobject hold howned)
    · intro t' _ k x hk howned
      have hold := (hinv.target.called t' k (unsubscribing_of_removed hk)).2
      have howned := owned_of_lt hobject hold howned
      exact unlisted_thread hinv hobject howned (hl.removed t' k x hk howned)
  have hactive : ∀ k x, (sh.subscription k).active = false → Owned (tr ++ e.toList) k x →
      Unlisted sh x := by
    intro k x hk howned
    rcases owned_append hobject howned with howned | ⟨rfl, name, id, -, rfl⟩
    · rcases hlisted.active k (howned_lt howned).1 hk with h | h
      · exact unlisted_thread hinv hobject howned (hl.inactive k x h howned)
      · exact unlisted_thread hinv hobject howned (hl.removed t k x h howned)
    · simp [Shared.newSubscription, Shared.setSubscription] at hk
  obtain ⟨hname, hsearch⟩ := listedInv_search hinv hl hobject hlisted
  refine ⟨hname, hsearch, listedInv_owner hl hobject hlisted, ?_, ?_, hremoved, hactive, ?_⟩
  · refine forall_update (P := fun (_ : Tid n) pc => ∀ x, insertedProxy pc = some x →
      x ∈ (sh.channel (sh.proxy x).channel).subscriberProxies) ?_ fun t' _ => hinserted t'
    intro x hx
    rcases hlisted.inserted x hx with hold | ⟨ch, hnot, rfl⟩
    · exact hinserted t x hold
    · show x ∈ ((s.shared.setChannel ch _).channel (s.shared.proxy x).channel).subscriberProxies
      rw [(hinv.list.unlisted t ch x hnot).2, setChannel_channel, if_pos rfl]
      exact List.mem_append_right _ (List.mem_singleton_self x)
  · intro k x howned hnot
    rcases owned_append hobject howned with howned | ⟨rfl, name, id, hpc, rfl⟩
    · refine listed_of_step hinv hobject (howned_lt howned).2 ?_ (hl.listed k x howned ?_)
      · rintro k' howned' ⟨t', hcall⟩
        obtain rfl := (hinv.owner.unique k k' x x howned howned').mpr rfl
        exact hnot ⟨t', List.mem_append_left _ hcall⟩
      · rintro ⟨t', hcall⟩
        exact hnot ⟨t', List.mem_append_left _ hcall⟩
    · exact hinserted t x (by rw [hpc]; rfl)
  · rintro k ⟨t', hcall⟩
    rcases List.mem_append.mp hcall with hcall | hcall
    · obtain ⟨hk, hold⟩ := hl.called k ⟨t', hcall⟩
      refine ⟨Nat.lt_of_lt_of_le hk hnext, ?_⟩
      intro x howned
      have howned' := owned_of_lt hobject hk howned
      rcases hold x howned' with h | ⟨t₁, ht₁⟩
      · exact Or.inl (unlisted_thread hinv hobject howned' h)
      · by_cases htt : t₁ = t
        · subst htt
          rcases hlisted.removing k ht₁ with h | h | ⟨thenFree, hpc, hret⟩
          · exact Or.inr ⟨t₁, by simpa only [Function.update_self] using h⟩
          · exact Or.inl (hremoved t₁ k x (by rw [Function.update_self]; exact h) howned)
          · rw [hpc] at hf
            have hoff := inactive_of_return hf hret
            exact Or.inl (unlisted_thread hinv hobject howned' (hl.inactive k x hoff howned'))
        · exact Or.inr ⟨t₁, by simpa only [Function.update_of_ne htt] using ht₁⟩
    · obtain ⟨hremoving, hk⟩ := hlisted.call t' k (by simpa using hcall)
      exact ⟨Nat.lt_of_lt_of_le hk hnext,
        fun x _ => Or.inr ⟨t, by simpa only [Function.update_self] using hremoving⟩⟩

/-- A harmless step keeps `ListedInv`. -/
theorem listedInv_harmless (hl : ListedInv tr s)
    (hstep : HarmlessStep t s.shared (s.pc t) sh pc e)
    (pool : ThreadPool.State n PublisherTaskArg) :
    ListedInv (tr ++ e.toList) ⟨pool, sh, Function.update s.pc t pc, s.faulted⟩ := by
  have hobjects := hstep.write.objects
  have hsub := hstep.write.subscriptions
  have hback : ∀ {k x}, Owned (tr ++ e.toList) k x → Owned tr k x := by
    rintro k x ⟨t', name, hmem⟩
    exact ⟨t', name, subscribed_mem_append hstep.subscribed hmem⟩
  have hcalled : ∀ {k}, Unsubscribed (tr ++ e.toList) k → Unsubscribed tr k := by
    rintro k ⟨t', hmem⟩
    rcases List.mem_append.mp hmem with hmem | hmem
    · exact ⟨t', hmem⟩
    · exact absurd (by simpa using hmem) (hstep.unsubscribeCall t' k)
  have hunlisted : ∀ {x}, Unlisted s.shared x → Unlisted sh x := by
    intro x h ch
    rw [hobjects.lists ch]
    exact h ch
  have hmem : ∀ {x}, x ∈ (s.shared.channel (s.shared.proxy x).channel).subscriberProxies →
      x ∈ (sh.channel (sh.proxy x).channel).subscriberProxies := by
    intro x h
    rw [hobjects.proxyChannel x, hobjects.lists]
    exact h
  have hremoving : ∀ {k}, (∃ t', removingFor (s.pc t') = some k) →
      ∃ t', removingFor (Function.update s.pc t pc t') = some k := by
    rintro k ⟨t', ht'⟩
    refine ⟨t', ?_⟩
    have htt : t' ≠ t := by
      rintro rfl
      have huns := unsubscribing_of_removing ht'
      rw [hstep.unsubscribing.2] at huns
      cases huns
    rw [Function.update_of_ne htt]
    exact ht'
  refine ⟨?_, ?_, ?_, ?_, ?_, ?_, ?_, ?_⟩
  · intro t' k x name h
    show (sh.subscription k).channelName = name
    rw [hsub]
    exact hl.name t' k x name (subscribed_mem_append hstep.subscribed h)
  · refine forall_update (P := fun (_ : Tid n) pc => ∀ k ch x, unsubscribing pc = some k →
      unsubscribeChannel pc = some ch → Owned (tr ++ e.toList) k x → (sh.proxy x).channel = ch)
      ?_ ?_
    · intro k ch x hk
      rw [hstep.unsubscribing.1] at hk
      cases hk
    · intro t' _ k ch x hk hch howned
      rw [hobjects.proxyChannel x]
      exact hl.search t' k ch x hk hch (hback howned)
  · intro ch x hx
    have hx : x ∈ (sh.channel ch).subscriberProxies := hx
    rw [hobjects.lists ch] at hx
    rcases hl.owner ch x hx with ⟨t', ht'⟩ | ⟨k, hk⟩
    · have htt : t' ≠ t := by
        rintro rfl
        rw [hstep.inserted.2] at ht'
        cases ht'
      exact Or.inl ⟨t', by simpa only [Function.update_of_ne htt] using ht'⟩
    · exact Or.inr ⟨k, hk.append⟩
  · refine forall_update (P := fun (_ : Tid n) pc => ∀ x, insertedProxy pc = some x →
      x ∈ (sh.channel (sh.proxy x).channel).subscriberProxies) ?_
      fun t' _ x hx => hmem (hl.inserted t' x hx)
    intro x hx
    rw [hstep.inserted.1] at hx
    cases hx
  · intro k x howned hnot
    refine hmem (hl.listed k x (hback howned) ?_)
    rintro ⟨t', hcall⟩
    exact hnot ⟨t', List.mem_append_left _ hcall⟩
  · refine forall_update (P := fun (_ : Tid n) pc => ∀ k x, removedFor pc = some k →
      Owned (tr ++ e.toList) k x → Unlisted sh x) ?_
      fun t' _ k x hk howned => hunlisted (hl.removed t' k x hk (hback howned))
    intro k x hk
    have huns := unsubscribing_of_removed hk
    rw [hstep.unsubscribing.1] at huns
    cases huns
  · intro k x hk howned
    have hk : (sh.subscription k).active = false := hk
    rw [hsub] at hk
    exact hunlisted (hl.inactive k x hk (hback howned))
  · intro k hcall
    obtain ⟨hk, hold⟩ := hl.called k (hcalled hcall)
    refine ⟨by rw [← hobjects.nextSubscription] at hk; exact hk, ?_⟩
    intro x howned
    exact (hold x (hback howned)).imp hunlisted hremoving

end

/-! ### States without a call in progress -/

/-- The thread is inside a subscribe, an unsubscribe, a free or a publisher task. -/
def callInProgress : Pc → Bool
  | .publisherTask _ _ | .subscribe _ _ _ | .unsubscribe _ _ _ | .free _ => true
  | _ => false

/-- `ListedInv` holds in every state of a run with harmless failures. -/
theorem listedInv_of_run {tr : List (Event n)} {s : State n}
    (h : (machine n capacity hcap).RunIf HarmlessFailures tr s) :
    BrokerInv tr s ∧ ListedInv tr s := by
  refine harmless_induction (I := ListedInv) ?_ ?_ ?_ ?_ h
  · refine ⟨?_, ?_, ?_, ?_, ?_, ?_, ?_, ?_⟩
    · intro t k x name hmem
      cases hmem
    · intro t k ch x hk
      cases hk
    · intro ch x hx
      cases hx
    · intro t x hx
      cases hx
    · rintro k x ⟨t, name, hmem⟩
      cases hmem
    · intro t k x hk
      cases hk
    · rintro k x - ⟨t, name, hmem⟩
      cases hmem
    · rintro k ⟨t, hmem⟩
      cases hmem
  · intro tr s t move sh pc e hinv hl hf hstep
    exact listedInv_thread hinv hl hf hstep
  · intro tr s t sh pc e pool hinv hl hstep
    exact listedInv_harmless hl hstep pool
  · intro tr s t hl
    exact ⟨hl.1, hl.2, hl.3, hl.4, hl.5, hl.6, hl.7, hl.8⟩

/-- In every run with harmless failures, and in every state of it without a call in progress, the
listed proxies and the subscriptions that were handed out and not unsubscribed correspond to each
other: each list holds a proxy once, a listed proxy belongs to exactly one such subscription, and
the proxy of such a subscription is in exactly one list. -/
theorem listed_proxies_owned {tr : List (Event n)} {s : State n}
    (h : (machine n capacity hcap).RunIf HarmlessFailures tr s)
    (hquiet : ∀ t, callInProgress (s.pc t) = false) :
    (∀ ch, (s.shared.channel ch).subscriberProxies.Nodup) ∧
    (∀ ch x, x ∈ (s.shared.channel ch).subscriberProxies →
      ∃! k, Owned tr k x ∧ ¬ Unsubscribed tr k) ∧
    (∀ k, ¬ Unsubscribed tr k → (∃ x, Owned tr k x) →
      ∃! x, Owned tr k x ∧ ∃! ch, x ∈ (s.shared.channel ch).subscriberProxies) := by
  obtain ⟨hinv, hl⟩ := listedInv_of_run h
  refine ⟨hinv.list.nodup, ?_, ?_⟩
  · intro ch x hx
    rcases hl.owner ch x hx with ⟨t, ht⟩ | ⟨k, hk⟩
    · -- A subscribe with the proxy in hand would be in progress.
      have hpc := hquiet t
      cases hcase : s.pc t <;> rw [hcase] at ht hpc <;> first | cases ht | cases hpc
    · refine ⟨k, ⟨hk, ?_⟩, fun k' hk' => (hinv.owner.unique k' k x x hk'.1 hk).mpr rfl⟩
      intro hcall
      rcases (hl.called k hcall).2 x hk with hnot | ⟨t, ht⟩
      · exact hnot ch hx
      · have hpc := hquiet t
        cases hcase : s.pc t <;> rw [hcase] at ht hpc <;> first | cases ht | cases hpc
  · rintro k hnot ⟨x, hx⟩
    refine ⟨x, ⟨hx, _, hl.listed k x hx hnot, ?_⟩,
      fun y hy => (hinv.owner.unique k k y x hy.1 hx).mp rfl⟩
    intro ch hch
    exact (hinv.list.home ch x hch).symm

/-- Only the client `c` takes steps. -/
def OnlyClient (c : Nat) (_ : State n) (a : Action n) : Prop := ∃ move, a = .thread (.client c) move

/-- The other threads are idle. -/
theorem idle_of_onlyClient {c : Nat} {tr : List (Event n)} {s : State n}
    (h : (machine n capacity hcap).RunIf (OnlyClient c) tr s) :
    ∀ t, t ≠ .client c → s.pc t = .idle := by
  refine h.induction (I := fun _ s => ∀ t, t ≠ .client c → s.pc t = .idle) (fun _ _ => rfl) ?_
  intro tr s a s' e _ hinv hK hnext t ht
  obtain ⟨move, rfl⟩ := hK
  simp only [machine, next, Option.ite_none_left_eq_some, Option.map_eq_some_iff] at hnext
  obtain ⟨-, o, -, ho⟩ := hnext
  cases o with
  | step sh pc e' =>
      obtain ⟨rfl, -⟩ := Prod.mk.inj ho
      show Function.update s.pc (.client c) pc t = .idle
      rw [Function.update_of_ne ht]
      exact hinv t ht
  | fault =>
      obtain ⟨rfl, -⟩ := Prod.mk.inj ho
      exact hinv t ht

/-- A state in which all threads but one are idle has no call in progress if that one has
none. -/
theorem quiet_of_onlyClient {c : Nat} {tr : List (Event n)} {s : State n}
    (h : (machine n capacity hcap).RunIf (OnlyClient c) tr s)
    (hc : callInProgress (s.pc (.client c)) = false) :
    ∀ t, callInProgress (s.pc t) = false := by
  intro t
  by_cases ht : t = .client c
  · rw [ht]
    exact hc
  · rw [idle_of_onlyClient h t ht]
    rfl

instance (c : Nat) (s : State n) (a : Action n) : Decidable (OnlyClient c s a) :=
  match a with
  | .thread t move =>
      if h : t = .client c then .isTrue ⟨move, by rw [h]⟩
      else .isFalse fun ⟨_, heq⟩ => h (Action.thread.inj heq).1
  | .dispatcher _ => .isFalse fun ⟨_, heq⟩ => by cases heq
  | .submit _ => .isFalse fun ⟨_, heq⟩ => by cases heq
  | .wait _ => .isFalse fun ⟨_, heq⟩ => by cases heq
  | .pool _ _ => .isFalse fun ⟨_, heq⟩ => by cases heq

/-- A subscribe whose list node cannot be allocated fails, and a second subscribe succeeds: the
list holds the proxy of the second one only. -/
theorem listed_proxies_owned_afterFailure :
    ∃ (tr : List (Event 1)) (s : State 1), (machine 1 1 (by decide)).RunIf HarmlessFailures tr s ∧
      .subscribeFailed (.client 0) ∈ tr ∧ (s.shared.channel 0).subscriberProxies = [1] ∧
      ∃! k, Owned tr k 1 ∧ ¬ Unsubscribed tr k := by
  let name : CString := ⟨[99], by decide⟩
  obtain ⟨tr, s, hrun, htest⟩ := Machine.runIf_of_exec (M := machine 1 1 (by decide))
    (K := fun s a => HarmlessFailures s a ∧ OnlyClient 0 s a)
    (.thread (.client 0) (.callSubscribe name) :: List.replicate 7 (.thread (.client 0) .go)
      ++ .thread (.client 0) .fail :: List.replicate 6 (.thread (.client 0) .go)
      ++ .thread (.client 0) (.callSubscribe name) :: List.replicate 8 (.thread (.client 0) .go))
    (fun tr s => decide (.subscribeFailed (.client 0) ∈ tr ∧
      (s.shared.channel 0).subscriberProxies = [1] ∧ s.pc (.client 0) = .idle))
    (by decide +kernel)
  obtain ⟨hfailed, hlist, hidle⟩ := of_decide_eq_true htest
  have hharmless := hrun.mono fun _ _ h => h.1
  have hquiet := quiet_of_onlyClient (hrun.mono fun _ _ h => h.2) (by rw [hidle]; rfl)
  refine ⟨tr, s, hharmless, hfailed, hlist, ?_⟩
  exact (listed_proxies_owned hharmless hquiet).2.1 0 1 (by rw [hlist]; simp)

/-- The last allocation of a subscribe fails. The subscribe returns an error, no call is in
progress, and its proxy stays in the list of the channel with no subscription for it. -/
theorem proxy_without_owner :
    ∃ (tr : List (Event 1)) (s : State 1), (machine 1 1 (by decide)).Run tr s ∧
      (∀ t, callInProgress (s.pc t) = false) ∧ .subscribeFailed (.client 0) ∈ tr ∧
      0 ∈ (s.shared.channel 0).subscriberProxies ∧ ∀ k, ¬ Owned tr k 0 := by
  let name : CString := ⟨[99], by decide⟩
  obtain ⟨tr, s, hrun, htest⟩ := Machine.runIf_of_exec (M := machine 1 1 (by decide))
    (K := OnlyClient 0)
    (.thread (.client 0) (.callSubscribe name) :: List.replicate 9 (.thread (.client 0) .go)
      ++ [.thread (.client 0) .fail])
    (fun tr s => decide (tr = [.subscribeCall (.client 0) 1 name, .subscribeFailed (.client 0)] ∧
      0 ∈ (s.shared.channel 0).subscriberProxies ∧ s.pc (.client 0) = .idle))
    (by decide +kernel)
  obtain ⟨htr, hlist, hidle⟩ := of_decide_eq_true htest
  refine ⟨tr, s, hrun.mono fun _ _ _ => trivial, quiet_of_onlyClient hrun (by rw [hidle]; rfl),
    by rw [htr]; simp, hlist, ?_⟩
  rintro k ⟨t, name', hmem⟩
  rw [htr] at hmem
  simp at hmem

end

end Miez.Proofs.MessageBroker
