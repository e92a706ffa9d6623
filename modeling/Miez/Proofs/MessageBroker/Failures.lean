import Miez.Proofs.MessageBroker.Publishes

/-!
# `Miez.Proofs.MessageBroker.Failures`: steps after a failed allocation

`FailStep` lists the steps that `ThreadStep` leaves out: an allocation fails, or a thread cleans
up after one that failed. `threadFunction_cases` says that the two lists together are all steps
of a thread inside a broker function.

`SourceInv` holds in every run, with or without failing allocations: whatever the broker passes
on, from the copy of a publish to the messages in the inboxes, is the copy that some publish
made.
-/

set_option autoImplicit false

namespace Miez.Proofs.MessageBroker

open Miez.Lib
open Miez.MessageBroker
open Miez.ThreadPool (Tid PoolTask)
open Miez.Proofs.ThreadPool

section
variable {n : Nat}

/-- The steps of the get-or-create of a channel that `GetChannelStep` leaves out. -/
inductive GetChannelFail (name : CString) (freeFirst : Bool) :
    Shared n → GetChannelPc → Shared n → GetChannelResult → Prop where
  | get {sh} : GetChannelFail name freeFirst sh .get sh (.more .new)
  | new {sh} : GetChannelFail name freeFirst sh .new sh (.more .unlockFailed)
  | insert {sh} (ch : Nat) :
      GetChannelFail name freeFirst sh (.insert ch) sh
        (.more (if freeFirst then .freeUnlock ch else .unlockFree ch))
  | insertNode {sh} (ch : Nat) :
      GetChannelFail name freeFirst sh (.insert ch)
        { sh.setChannel ch { sh.channel ch with released := true } with
          channels := sh.channels.insertNoNode name }
        (.more (if freeFirst then .freeUnlock ch else .unlockFree ch))
  | freeUnlock {sh} (ch : Nat) (hlive : (sh.channel ch).released = false) :
      GetChannelFail name freeFirst sh (.freeUnlock ch)
        (sh.setChannel ch { sh.channel ch with released := true }) (.more .unlockFailed)
  | unlockFree {sh} (ch : Nat) :
      GetChannelFail name freeFirst sh (.unlockFree ch) sh.unlockChannels (.more (.free ch))
  | free {sh} (ch : Nat) (hlive : (sh.channel ch).released = false) :
      GetChannelFail name freeFirst sh (.free ch)
        (sh.setChannel ch { sh.channel ch with released := true }) .failed
  | unlockFailed {sh} :
      GetChannelFail name freeFirst sh .unlockFailed sh.unlockChannels .failed

/-- The steps of a thread inside a broker function that `ThreadStep` leaves out. -/
inductive FailStep (t : Tid n) : Shared n → Pc → Shared n → Pc → Option (Event n) → Prop where
  | publish {sh} (arg : PublisherTaskArg) :
      FailStep t sh (.publish arg) sh .idle (some (.publishFailed t arg))
  -- The task of a publish.
  | taskMore {sh sh' arg g g'} (hg : GetChannelFail arg.channelName false sh g sh' (.more g')) :
      FailStep t sh (.publisherTask arg (.getChannel g)) sh' (.publisherTask arg (.getChannel g'))
        none
  | taskFailed {sh sh' arg g} (hg : GetChannelFail arg.channelName false sh g sh' .failed) :
      FailStep t sh (.publisherTask arg (.getChannel g)) sh' .idle none
  | begin {sh arg} (ch : Nat) :
      FailStep t sh (.publisherTask arg (.begin ch)) sh (.publisherTask arg (.unlockChannel ch)) none
  | skip {sh arg} (ch i x : Nat) (pc : PublisherTaskPc)
      (hpc : pc = .testActive ch i x ∨ pc = .enqueue ch i x) :
      FailStep t sh (.publisherTask arg pc) sh (.publisherTask arg (.next ch (i + 1))) none
  -- A subscribe.
  | subscribeMore {sh sh' name id g g'} (hg : GetChannelFail name true sh g sh' (.more g')) :
      FailStep t sh (.subscribe name id (.getChannel g)) sh' (.subscribe name id (.getChannel g'))
        none
  | subscribeFailed {sh sh' name id g} (hg : GetChannelFail name true sh g sh' .failed) :
      FailStep t sh (.subscribe name id (.getChannel g)) sh' .idle (some (.subscribeFailed t))
  | newProxy {sh name id} (ch : Nat) :
      FailStep t sh (.subscribe name id (.newProxy ch)) sh .idle (some (.subscribeFailed t))
  | insertLast {sh name id} (ch x : Nat) :
      FailStep t sh (.subscribe name id (.insertLast ch x)) sh
        (.subscribe name id (.unlockFailed ch x)) none
  | unlockFailed {sh name id} (ch x : Nat) :
      FailStep t sh (.subscribe name id (.unlockFailed ch x)) (sh.unlockChannel ch)
        (.subscribe name id (.freeProxy x .deactivate)) none
  | freeDeactivate {sh name id} (x : Nat) :
      FailStep t sh (.subscribe name id (.freeProxy x .deactivate)) (sh.deactivate x)
        (.subscribe name id (.freeProxy x .lock)) none
  | freeInbox {sh name id} (x : Nat) (p : SubscriberProxy n) (f f' : ProxyFreePc)
      (hp : InboxOnly (sh.proxy x) p) (hinbox : p.inbox = (sh.proxy x).inbox)
      (hf : (f = .lock ∧ f' = .broadcast) ∨ (f = .broadcast ∧ f' = .unlock) ∨
        (f = .unlock ∧ f' = .release)) :
      FailStep t sh (.subscribe name id (.freeProxy x f)) (sh.setProxy x p)
        (.subscribe name id (.freeProxy x f')) none
  | freeRelease {sh name id} (x : Nat) :
      FailStep t sh (.subscribe name id (.freeProxy x .release))
        (sh.setProxy x { sh.proxy x with released := true }) .idle (some (.subscribeFailed t))
  | newSubscription {sh name id} (x : Nat) :
      FailStep t sh (.subscribe name id (.newSubscription x)) sh .idle (some (.subscribeFailed t))
  -- An unsubscribe.
  | unsubscribeGet {sh k thenFree} :
      FailStep t sh (.unsubscribe k thenFree .get) sh (.unsubscribe k thenFree .unlockChannels) none
  | unsubscribeSearch {sh k thenFree} (ch : Nat) :
      FailStep t sh (.unsubscribe k thenFree (.search ch)) sh
        (.unsubscribe k thenFree (.unlockChannel ch)) none

/-- The step is one of those that `ThreadStep` leaves out: its allocation fails, or the thread is
on a failure path. -/
def isFailing (pc : Pc) (move : Move n) : Prop :=
  move = .fail ∨ move = .failNode ∨ onFailurePath pc = true

/-- The get-or-create takes the steps of `GetChannelFail`. -/
theorem getChannel_fail {t : Tid n} {name : CString} {freeFirst : Bool} {sh sh' : Shared n}
    {pc : GetChannelPc} {move : Move n} {r : GetChannelResult}
    (h : getChannel t name freeFirst sh pc move = some (sh', r)) (hr : r ≠ .fault)
    (hfail : move = .fail ∨ move = .failNode ∨ getChannelFailed pc = true) :
    GetChannelFail name freeFirst sh pc sh' r := by
  cases pc with
  | lock => cases move <;> simp_all [getChannel, getChannelFailed]
  | get =>
      cases move <;> simp_all [getChannel, getChannelFailed]
      obtain ⟨-, rfl, rfl⟩ := h
      exact .get
  | new =>
      cases move <;> simp_all [getChannel, getChannelFailed]
      obtain ⟨rfl, rfl⟩ := h
      exact .new
  | insert ch =>
      cases move with
      | fail =>
          simp only [getChannel, Option.some.injEq, Prod.mk.injEq] at h
          obtain ⟨rfl, rfl⟩ := h
          exact .insert ch
      | failNode =>
          simp only [getChannel, Option.ite_none_left_eq_some, Option.some.injEq,
            Prod.mk.injEq] at h
          obtain ⟨-, rfl, rfl⟩ := h
          exact .insertNode ch
      | _ => simp_all [getChannelFailed]
  | unlock ch => cases move <;> simp_all [getChannel, getChannelFailed]
  | freeUnlock ch =>
      cases move <;> simp only [getChannel] at h <;> try cases h
      split_ifs at h with hrel
      · exact absurd (Prod.mk.inj (Option.some.inj h)).2.symm hr
      · obtain ⟨rfl, rfl⟩ := Prod.mk.inj (Option.some.inj h)
        exact .freeUnlock ch (by simpa using hrel)
  | unlockFree ch =>
      cases move <;> simp only [getChannel] at h <;> try cases h
      exact .unlockFree ch
  | free ch =>
      cases move <;> simp only [getChannel] at h <;> try cases h
      split_ifs at h with hrel
      · exact absurd (Prod.mk.inj (Option.some.inj h)).2.symm hr
      · obtain ⟨rfl, rfl⟩ := Prod.mk.inj (Option.some.inj h)
        exact .free ch (by simpa using hrel)
  | unlockFailed =>
      cases move <;> simp only [getChannel] at h <;> try cases h
      exact .unlockFailed

/-- `_publisher_task` takes the steps of `FailStep`. -/
theorem publisherTask_fail {t : Tid n} {arg : PublisherTaskArg} {sh sh' : Shared n}
    {pc : PublisherTaskPc} {move : Move n} {pc' : Pc} {e : Option (Event n)}
    (h : publisherTask t arg sh pc move = some (.step sh' pc' e))
    (hfail : isFailing (.publisherTask arg pc) move) :
    FailStep t sh (.publisherTask arg pc) sh' pc' e := by
  cases pc with
  | getChannel g =>
      simp only [publisherTask, Option.map_eq_some_iff] at h
      obtain ⟨⟨sh₁, r⟩, hg, hr⟩ := h
      cases r with
      | more g' =>
          obtain ⟨rfl, rfl, rfl⟩ := Outcome.step.inj hr
          exact .taskMore (getChannel_fail hg (by simp) hfail)
      | found ch =>
          have hstep := getChannel_fail hg (by simp) hfail
          cases hstep
      | failed =>
          obtain ⟨rfl, rfl, rfl⟩ := Outcome.step.inj hr
          exact .taskFailed (getChannel_fail hg (by simp) hfail)
      | fault => cases hr
  | begin ch =>
      rcases hfail with rfl | rfl | hpath
      · simp only [publisherTask, Option.ite_none_left_eq_some, Option.some.injEq,
          Outcome.step.injEq] at h
        obtain ⟨-, rfl, rfl, rfl⟩ := h
        exact .begin ch
      · cases h
      · cases hpath
  | testActive ch i x =>
      rcases hfail with rfl | rfl | hpath
      · obtain ⟨rfl, rfl, rfl⟩ := Outcome.step.inj (Option.some.inj h)
        exact .skip ch i x _ (Or.inl rfl)
      · cases h
      · cases hpath
  | enqueue ch i x =>
      rcases hfail with rfl | rfl | hpath
      · obtain ⟨rfl, rfl, rfl⟩ := Outcome.step.inj (Option.some.inj h)
        exact .skip ch i x _ (Or.inr rfl)
      · cases h
      · cases hpath
  | signal ch i x =>
      rcases hfail with rfl | rfl | hpath
      · simp [publisherTask, Shared.signalInbox] at h
      · simp [publisherTask, Shared.signalInbox] at h
      · cases hpath
  | lockChannel ch => rcases hfail with rfl | rfl | hpath <;> first | cases h | cases hpath
  | next ch i => rcases hfail with rfl | rfl | hpath <;> first | cases h | cases hpath
  | lockInbox ch i x => rcases hfail with rfl | rfl | hpath <;> first | cases h | cases hpath
  | unlockInbox ch i x => rcases hfail with rfl | rfl | hpath <;> first | cases h | cases hpath
  | unlockChannel ch => rcases hfail with rfl | rfl | hpath <;> first | cases h | cases hpath

/-- The part of `_subscriber_proxy_free` that a failed subscribe runs. -/
theorem subscribeFreeProxy_fail {t : Tid n} {name : CString} {id : UInt64} {sh sh' : Shared n}
    {x : Nat} {f : ProxyFreePc} {move : Move n} {pc' : Pc} {e : Option (Event n)}
    (h : messageBrokerSubscribe t name id sh (.freeProxy x f) move = some (.step sh' pc' e)) :
    FailStep t sh (.subscribe name id (.freeProxy x f)) sh' pc' e := by
  obtain rfl : move = .go := by cases move <;> first | rfl | cases h
  simp only [messageBrokerSubscribe, Option.map_eq_some_iff] at h
  obtain ⟨⟨sh₁, r⟩, hf, hr⟩ := h
  unfold subscriberProxyFree at hf
  split_ifs at hf with hrel
  · obtain ⟨rfl, rfl⟩ := Prod.mk.inj (Option.some.inj hf)
    cases hr
  · cases f with
    | deactivate =>
        obtain ⟨rfl, rfl⟩ := Prod.mk.inj (Option.some.inj hf)
        obtain ⟨rfl, rfl, rfl⟩ := Outcome.step.inj hr
        exact .freeDeactivate x
    | lock =>
        simp only [Shared.lockInbox, Option.map_map, Option.map_eq_some_iff] at hf
        obtain ⟨m, -, hm⟩ := hf
        obtain ⟨rfl, rfl⟩ := Prod.mk.inj hm
        obtain ⟨rfl, rfl, rfl⟩ := Outcome.step.inj hr
        exact .freeInbox x _ _ _ ⟨rfl, rfl, rfl, rfl⟩ rfl (Or.inl ⟨rfl, rfl⟩)
    | broadcast =>
        obtain ⟨rfl, rfl⟩ := Prod.mk.inj (Option.some.inj hf)
        obtain ⟨rfl, rfl, rfl⟩ := Outcome.step.inj hr
        exact .freeInbox x _ _ _ ⟨rfl, rfl, rfl, rfl⟩ rfl (Or.inr (Or.inl ⟨rfl, rfl⟩))
    | unlock =>
        obtain ⟨rfl, rfl⟩ := Prod.mk.inj (Option.some.inj hf)
        obtain ⟨rfl, rfl, rfl⟩ := Outcome.step.inj hr
        exact .freeInbox x _ _ _ ⟨rfl, rfl, rfl, rfl⟩ rfl (Or.inr (Or.inr ⟨rfl, rfl⟩))
    | release =>
        obtain ⟨rfl, rfl⟩ := Prod.mk.inj (Option.some.inj hf)
        obtain ⟨rfl, rfl, rfl⟩ := Outcome.step.inj hr
        exact .freeRelease x

/-- `message_broker_subscribe` takes the steps of `FailStep`. -/
theorem messageBrokerSubscribe_fail {t : Tid n} {name : CString} {id : UInt64}
    {sh sh' : Shared n} {pc : SubscribePc} {move : Move n} {pc' : Pc} {e : Option (Event n)}
    (h : messageBrokerSubscribe t name id sh pc move = some (.step sh' pc' e))
    (hfail : isFailing (.subscribe name id pc) move) :
    FailStep t sh (.subscribe name id pc) sh' pc' e := by
  cases pc with
  | getChannel g =>
      simp only [messageBrokerSubscribe, Option.map_eq_some_iff] at h
      obtain ⟨⟨sh₁, r⟩, hg, hr⟩ := h
      cases r with
      | more g' =>
          obtain ⟨rfl, rfl, rfl⟩ := Outcome.step.inj hr
          exact .subscribeMore (getChannel_fail hg (by simp) hfail)
      | found ch =>
          have hstep := getChannel_fail hg (by simp) hfail
          cases hstep
      | failed =>
          obtain ⟨rfl, rfl, rfl⟩ := Outcome.step.inj hr
          exact .subscribeFailed (getChannel_fail hg (by simp) hfail)
      | fault => cases hr
  | newProxy ch =>
      rcases hfail with rfl | rfl | hpath
      · obtain ⟨rfl, rfl, rfl⟩ := Outcome.step.inj (Option.some.inj h)
        exact .newProxy ch
      · cases h
      · cases hpath
  | insertLast ch x =>
      rcases hfail with rfl | rfl | hpath
      · obtain ⟨rfl, rfl, rfl⟩ := Outcome.step.inj (Option.some.inj h)
        exact .insertLast ch x
      · cases h
      · cases hpath
  | newSubscription x =>
      rcases hfail with rfl | rfl | hpath
      · obtain ⟨rfl, rfl, rfl⟩ := Outcome.step.inj (Option.some.inj h)
        exact .newSubscription x
      · cases h
      · cases hpath
  | unlockFailed ch x =>
      obtain rfl : move = .go := by cases move <;> first | rfl | cases h
      obtain ⟨rfl, rfl, rfl⟩ := Outcome.step.inj (Option.some.inj h)
      exact .unlockFailed ch x
  | freeProxy x f => exact subscribeFreeProxy_fail h
  | lockChannel ch x => rcases hfail with rfl | rfl | hpath <;> first | cases h | cases hpath
  | unlockChannel ch x => rcases hfail with rfl | rfl | hpath <;> first | cases h | cases hpath

/-- `subscription_unsubscribe` takes the steps of `FailStep`. -/
theorem subscriptionUnsubscribe_fail {t : Tid n} {k : Nat} {thenFree : Bool} {sh sh' : Shared n}
    {pc : UnsubscribePc} {move : Move n} {pc' : Pc} {e : Option (Event n)}
    (h : subscriptionUnsubscribe t k thenFree sh pc move = some (.step sh' pc' e))
    (hfail : move = .fail) : FailStep t sh (.unsubscribe k thenFree pc) sh' pc' e := by
  subst hfail
  cases pc with
  | get =>
      simp only [subscriptionUnsubscribe, derefSubscription_eq_step,
        Option.ite_none_left_eq_some, Option.some.injEq, Outcome.step.injEq] at h
      obtain ⟨-, -, rfl, rfl, rfl⟩ := h
      exact .unsubscribeGet
  | search ch =>
      obtain ⟨rfl, rfl, rfl⟩ := Outcome.step.inj (Option.some.inj h)
      exact .unsubscribeSearch ch
  | _ => cases h

/-- All steps of a thread inside a broker function. -/
theorem threadFunction_cases {t : Tid n} {sh sh' : Shared n} {pc pc' : Pc} {move : Move n}
    {e : Option (Event n)} (h : threadFunction t sh pc move = some (.step sh' pc' e)) :
    ThreadStep t sh pc sh' pc' e ∨ FailStep t sh pc sh' pc' e ∧ isFailing pc move := by
  by_cases hfail : isFailing pc move
  · right
    refine ⟨?_, hfail⟩
    cases pc with
    | idle =>
        cases t with
        | client c => rcases hfail with rfl | rfl | hpath <;> first | cases h | cases hpath
        | dispatcher d => cases h
    | publish arg =>
        rcases hfail with rfl | rfl | hpath
        · obtain ⟨rfl, rfl, rfl⟩ := Outcome.step.inj (Option.some.inj h)
          exact .publish arg
        · cases h
        · cases hpath
    | inPool => cases move <;> cases h
    | publisherTask arg pc => exact publisherTask_fail h hfail
    | subscribe name id pc => exact messageBrokerSubscribe_fail h hfail
    | unsubscribe k thenFree pc =>
        rcases hfail with rfl | rfl | hpath
        · exact subscriptionUnsubscribe_fail h rfl
        · cases pc <;> cases h
        · cases hpath
    | free k => rcases hfail with rfl | rfl | hpath <;> first | cases h | cases hpath
    | receive k tryReceive pc =>
        rcases hfail with rfl | rfl | hpath
        · cases pc <;> cases h
        · cases pc <;> cases h
        · cases hpath
    | pendingCount k pc => rcases hfail with rfl | rfl | hpath <;> first | cases h | cases hpath
  · left
    simp only [isFailing, not_or, Bool.not_eq_true] at hfail
    exact threadFunction_step h hfail.1 hfail.2.1 hfail.2.2

/-! ### Where messages come from -/

/-- The argument of the publish or of the task that the thread is in. -/
def argOf : Pc → Option PublisherTaskArg
  | .publish arg => some arg
  | .publisherTask arg _ => some arg
  | _ => none

/-- The message is the copy that some publish made. -/
def FromPublish (tr : List (Event n)) (msg : Message) : Prop :=
  ∃ arg ∈ publishCalls tr, msg = arg.message

/-- What one step of a thread does with the copies that publishes made: it passes one on. -/
structure SourceStep (sh : Shared n) (pc : Pc) (sh' : Shared n) (pc' : Pc)
    (e : Option (Event n)) : Prop where
  pool : e.bind poolEvent = none
  arg : ∀ arg, argOf pc' = some arg → argOf pc = some arg ∨ e.bind publishCallArg = some arg
  inbox : ∀ x msg, msg ∈ (sh'.proxy x).inbox →
    msg ∈ (sh.proxy x).inbox ∨ ∃ arg, argOf pc = some arg ∧ msg = arg.message
  got : ∀ t k x msg, e = some (.got t k x (some msg)) → msg ∈ (sh.proxy x).inbox
  call : ∀ arg, e.bind publishCallArg = some arg → arg.publish = sh.nextPublish
  nextPublish : sh'.nextPublish = sh.nextPublish + (e.bind publishCallArg).toList.length

/-- A step that changes no inbox and no argument and shows neither a call nor a message. -/
theorem SourceStep.same {sh sh' : Shared n} {pc pc' : Pc} {e : Option (Event n)}
    (hpool : e.bind poolEvent = none) (hcall : e.bind publishCallArg = none)
    (harg : ∀ arg, argOf pc' = some arg → argOf pc = some arg)
    (hproxy : ∀ x msg, msg ∈ (sh'.proxy x).inbox → msg ∈ (sh.proxy x).inbox)
    (hgot : ∀ t k x msg, e ≠ some (.got t k x (some msg)))
    (hnext : sh'.nextPublish = sh.nextPublish) : SourceStep sh pc sh' pc' e where
  pool := hpool
  arg arg h := Or.inl (harg arg h)
  inbox x msg h := Or.inl (hproxy x msg h)
  got t k x msg h := absurd h (hgot t k x msg)
  call arg h := by rw [hcall] at h; cases h
  nextPublish := by rw [hcall, hnext]; rfl

/-- A write to a proxy that keeps its inbox. -/
theorem mem_inbox_setProxy {sh : Shared n} {y : Nat} {p : SubscriberProxy n}
    (hp : ∀ msg, msg ∈ p.inbox → msg ∈ (sh.proxy y).inbox) (x : Nat) (msg : Message)
    (h : msg ∈ ((sh.setProxy y p).proxy x).inbox) : msg ∈ (sh.proxy x).inbox := by
  by_cases hxy : x = y
  · subst hxy
    rw [show (sh.setProxy x p).proxy x = p from Function.update_self _ _ _] at h
    exact hp msg h
  · rwa [show (sh.setProxy y p).proxy x = sh.proxy x from Function.update_of_ne hxy _ _] at h

/-- The get-or-create of a channel leaves the inboxes alone. -/
theorem GetChannelStep.proxy {t : Tid n} {name : CString} {sh sh' : Shared n} {g : GetChannelPc}
    {r : GetChannelResult} (h : GetChannelStep t name sh g sh' r) :
    sh'.proxy = sh.proxy ∧ sh'.nextPublish = sh.nextPublish := by
  cases h <;> exact ⟨rfl, rfl⟩

/-- The failing get-or-create of a channel leaves the inboxes alone. -/
theorem GetChannelFail.proxy {name : CString} {freeFirst : Bool} {sh sh' : Shared n}
    {g : GetChannelPc} {r : GetChannelResult} (h : GetChannelFail name freeFirst sh g sh' r) :
    sh'.proxy = sh.proxy ∧ sh'.nextPublish = sh.nextPublish := by
  cases h <;> exact ⟨rfl, rfl⟩

/-- A step without a failing allocation passes copies on. -/
theorem ThreadStep.sourceStep {t : Tid n} {sh sh' : Shared n} {pc pc' : Pc}
    {e : Option (Event n)} (h : ThreadStep t sh pc sh' pc' e) : SourceStep sh pc sh' pc' e := by
  have hkeep : ∀ (x : Nat) (msg : Message), msg ∈ (sh.proxy x).inbox → msg ∈ (sh.proxy x).inbox :=
    fun _ _ h => h
  cases h with
  | callPublish c ht name content =>
      refine ⟨rfl, fun arg h => Or.inr h, fun x msg h => Or.inl h,
        fun t k x msg h => (by cases h), ?_, rfl⟩
      intro arg h
      cases h
      rfl
  | taskMore hg =>
      exact .same rfl rfl (fun _ h => h) (fun x msg h => by rwa [hg.proxy.1] at h)
        (fun _ _ _ _ h => by cases h) hg.proxy.2
  | taskFound hg =>
      exact .same rfl rfl (fun _ h => h) (fun x msg h => by rwa [hg.proxy.1] at h)
        (fun _ _ _ _ h => by cases h) hg.proxy.2
  | subscribeMore hg =>
      exact .same rfl rfl (fun _ h => h) (fun x msg h => by rwa [hg.proxy.1] at h)
        (fun _ _ _ _ h => by cases h) hg.proxy.2
  | subscribeFound hg =>
      exact .same rfl rfl (fun _ h => h) (fun x msg h => by rwa [hg.proxy.1] at h)
        (fun _ _ _ _ h => by cases h) hg.proxy.2
  | @put arg ch i x =>
      refine ⟨rfl, fun arg h => Or.inl h, ?_, fun t k x msg h => (by cases h),
        fun arg h => (by cases h), rfl⟩
      intro y msg hmsg
      by_cases hxy : y = x
      · subst hxy
        rw [show ((sh.setProxy y _).proxy y) = _ from Function.update_self _ _ _] at hmsg
        rcases List.mem_append.mp hmsg with hmsg | hmsg
        · exact Or.inl hmsg
        · exact Or.inr ⟨arg, rfl, List.mem_singleton.mp hmsg⟩
      · left
        rwa [show ((sh.setProxy x _).proxy y) = sh.proxy y from Function.update_of_ne hxy _ _]
          at hmsg
  | newProxy ch =>
      refine .same rfl rfl (fun _ h => h) ?_ (fun _ _ _ _ h => by cases h) rfl
      exact fun x msg h => mem_inbox_setProxy (fun msg h => by cases h) x msg h
  | @got k tryReceive x =>
      refine ⟨rfl, fun arg h => (by cases h), ?_, ?_, fun arg h => (by cases h), rfl⟩
      · refine fun y msg h => Or.inl (mem_inbox_setProxy (fun msg h => ?_) y msg h)
        cases hin : (sh.proxy x).inbox with
        | nil => rw [hin] at h; cases h
        | cons m ms =>
            rw [hin] at h
            exact List.mem_cons_of_mem _ h
      · intro t' k' x' msg heq
        obtain ⟨-, -, rfl, hmsg⟩ := Event.got.inj (Option.some.inj heq)
        cases hin : (sh.proxy x).inbox with
        | nil => rw [hin] at hmsg; cases hmsg
        | cons m ms =>
            rw [hin] at hmsg
            obtain rfl : m = msg := Option.some.inj hmsg
            exact List.mem_cons_self
  | unsubscribeInactive hret =>
      rcases hret with ⟨rfl, rfl⟩ | ⟨rfl, rfl⟩ <;>
        exact .same rfl rfl (fun _ h => by cases h) hkeep (fun _ _ _ _ h => by cases h) rfl
  | clearProxy hret =>
      rcases hret with ⟨rfl, rfl⟩ | ⟨rfl, rfl⟩ <;>
        exact .same rfl rfl (fun _ h => by cases h) hkeep (fun _ _ _ _ h => by cases h) rfl
  | receiveRead hret =>
      rcases hret with ⟨r', rfl, rfl⟩ | ⟨rfl, rfl⟩ <;>
        exact .same rfl rfl (fun _ h => by cases h) hkeep (fun _ _ _ _ h => by cases h) rfl
  | receiveInbox x p hp hinbox hret =>
      have hmem : ∀ y msg, msg ∈ ((sh.setProxy x p).proxy y).inbox → msg ∈ (sh.proxy y).inbox :=
        mem_inbox_setProxy fun msg h => by rwa [hinbox] at h
      rcases hret with ⟨r', rfl, rfl⟩ | ⟨rfl, rfl⟩ <;>
        exact .same rfl rfl (fun _ h => by cases h) hmem (fun _ _ _ _ h => by cases h) rfl
  | pendingRead hret =>
      rcases hret with ⟨rfl, rfl⟩ | ⟨rfl, count, rfl⟩ <;>
        exact .same rfl rfl (fun _ h => by cases h) hkeep (fun _ _ _ _ h => by cases h) rfl
  | unsubscribeInbox x p u u' hp hinbox hu =>
      refine .same rfl rfl (fun _ h => by cases h) ?_ (fun _ _ _ _ h => by cases h) rfl
      exact mem_inbox_setProxy fun msg h => by rwa [hinbox] at h
  | freeInbox ch i x p f f' hp hinbox hf =>
      refine .same rfl rfl (fun _ h => by cases h) ?_ (fun _ _ _ _ h => by cases h) rfl
      exact mem_inbox_setProxy fun msg h => by rwa [hinbox] at h
  | taskUnlock ch =>
      exact .same rfl rfl (fun _ h => by cases h) hkeep (fun _ _ _ _ h => by cases h) rfl
  | taskLockInbox ch i x hfree =>
      exact .same rfl rfl (fun _ h => h) (mem_inbox_setProxy fun _ h => h)
        (fun _ _ _ _ h => by cases h) rfl
  | taskSignal ch i x waiting =>
      exact .same rfl rfl (fun _ h => h) (mem_inbox_setProxy fun _ h => h)
        (fun _ _ _ _ h => by cases h) rfl
  | taskUnlockInbox ch i x =>
      exact .same rfl rfl (fun _ h => h) (mem_inbox_setProxy fun _ h => h)
        (fun _ _ _ _ h => by cases h) rfl
  | deactivate x hx =>
      exact .same rfl rfl (fun _ h => h) (mem_inbox_setProxy fun _ h => h)
        (fun _ _ _ _ h => by cases h) rfl
  | freeDeactivate ch i x =>
      exact .same rfl rfl (fun _ h => h) (mem_inbox_setProxy fun _ h => h)
        (fun _ _ _ _ h => by cases h) rfl
  | freeRelease ch i x =>
      exact .same rfl rfl (fun _ h => h) (mem_inbox_setProxy fun _ h => h)
        (fun _ _ _ _ h => by cases h) rfl
  | _ =>
      refine .same ?_ ?_ ?_ hkeep ?_ ?_
      · rfl
      · rfl
      · intro arg h
        exact h
      · intro t k x msg h
        cases h
      · rfl

/-- A step of a failing call passes copies on. -/
theorem FailStep.sourceStep {t : Tid n} {sh sh' : Shared n} {pc pc' : Pc}
    {e : Option (Event n)} (h : FailStep t sh pc sh' pc' e) : SourceStep sh pc sh' pc' e := by
  have hkeep : ∀ (x : Nat) (msg : Message), msg ∈ (sh.proxy x).inbox → msg ∈ (sh.proxy x).inbox :=
    fun _ _ h => h
  cases h with
  | taskMore hg =>
      exact .same rfl rfl (fun _ h => h) (fun x msg h => by rwa [hg.proxy.1] at h)
        (fun _ _ _ _ h => by cases h) hg.proxy.2
  | taskFailed hg =>
      exact .same rfl rfl (fun _ h => by cases h) (fun x msg h => by rwa [hg.proxy.1] at h)
        (fun _ _ _ _ h => by cases h) hg.proxy.2
  | subscribeMore hg =>
      exact .same rfl rfl (fun _ h => h) (fun x msg h => by rwa [hg.proxy.1] at h)
        (fun _ _ _ _ h => by cases h) hg.proxy.2
  | subscribeFailed hg =>
      exact .same rfl rfl (fun _ h => by cases h) (fun x msg h => by rwa [hg.proxy.1] at h)
        (fun _ _ _ _ h => by cases h) hg.proxy.2
  | freeDeactivate x =>
      exact .same rfl rfl (fun _ h => h) (mem_inbox_setProxy fun _ h => h)
        (fun _ _ _ _ h => by cases h) rfl
  | freeInbox x p f f' hp hinbox hf =>
      refine .same rfl rfl (fun _ h => by cases h) ?_ (fun _ _ _ _ h => by cases h) rfl
      exact mem_inbox_setProxy fun msg h => by rwa [hinbox] at h
  | freeRelease x =>
      exact .same rfl rfl (fun _ h => by cases h) (mem_inbox_setProxy fun _ h => h)
        (fun _ _ _ _ h => by cases h) rfl
  | _ =>
      refine .same ?_ ?_ ?_ hkeep ?_ ?_
      · rfl
      · rfl
      · intro arg h
        first | exact h | cases h
      · intro t k x msg h
        cases h
      · rfl

/-- A thread inside a broker function is not inside the pool. -/
theorem ThreadStep.ne_inPool {t : Tid n} {sh sh' : Shared n} {pc pc' : Pc} {e : Option (Event n)}
    (h : ThreadStep t sh pc sh' pc' e) : pc ≠ .inPool ∧ pc' ≠ .inPool := by
  cases h with
  | unsubscribeInactive hret => rcases hret with ⟨rfl, -⟩ | ⟨rfl, -⟩ <;> simp
  | clearProxy hret => rcases hret with ⟨rfl, -⟩ | ⟨rfl, -⟩ <;> simp
  | receiveRead hret => rcases hret with ⟨r', rfl, -⟩ | ⟨rfl, -⟩ <;> simp
  | receiveInbox x p hp hinbox hret => rcases hret with ⟨r', rfl, -⟩ | ⟨rfl, -⟩ <;> simp
  | pendingRead hret => rcases hret with ⟨rfl, -⟩ | ⟨rfl, -⟩ <;> simp
  | _ => simp

/-- A thread that cleans up after a failure is not inside the pool. -/
theorem FailStep.ne_inPool {t : Tid n} {sh sh' : Shared n} {pc pc' : Pc} {e : Option (Event n)}
    (h : FailStep t sh pc sh' pc' e) : pc ≠ .inPool ∧ pc' ≠ .inPool := by
  cases h <;> simp

/-- Everything that the broker passes on is the copy that some publish made, and publishes have
different numbers. -/
structure SourceInv (tr : List (Event n)) (s : State n) : Prop where
  inPool : InPoolInv s
  pc : ∀ t arg, argOf (s.pc t) = some arg → arg ∈ publishCalls tr
  client : ∀ c arg, submitArg (s.pool.client c) = some arg → arg ∈ publishCalls tr
  enqueued : ∀ task ∈ enqueuedTasks (poolTrace tr), task.arg ∈ publishCalls tr
  inbox : ∀ x, ∀ msg ∈ (s.shared.proxy x).inbox, FromPublish tr msg
  got : ∀ t k x msg, .got t k x (some msg) ∈ tr → FromPublish tr msg
  lt : ∀ arg ∈ publishCalls tr, arg.publish < s.shared.nextPublish
  unique : ∀ arg ∈ publishCalls tr, ∀ arg' ∈ publishCalls tr, arg.publish = arg'.publish → arg = arg'

/-- The publishes shown so far stay. -/
theorem mem_publishCalls_append {tr tr' : List (Event n)} {arg : PublisherTaskArg}
    (h : arg ∈ publishCalls tr) : arg ∈ publishCalls (tr ++ tr') := by
  rw [publishCalls, List.filterMap_append]
  exact List.mem_append_left _ h

/-- A message stays the copy of its publish. -/
theorem FromPublish.append {tr tr' : List (Event n)} {msg : Message} (h : FromPublish tr msg) :
    FromPublish (tr ++ tr') msg := by
  obtain ⟨arg, harg, hmsg⟩ := h
  exact ⟨arg, mem_publishCalls_append harg, hmsg⟩

/-- The pool inside any run of the broker has a run of its own. -/
theorem poolRun_of_any {capacity : UInt64} {hcap : capacity ≠ 0} {tr : List (Event n)} {s : State n}
    (h : (machine n capacity hcap).Run tr s) :
    (ThreadPool.machine n PublisherTaskArg).Run (poolTrace tr) s.pool := by
  refine h.map State.pool poolEvent rfl ?_
  intro tr s a s' e _ _ hnext
  rcases next_cases hnext with ⟨b, pool, t, pc, e', -, hstep, rfl, -, -, rfl⟩ |
      ⟨t, move, sh, pc, rfl, hf, rfl⟩ | ⟨t, rfl, rfl⟩
  · refine Or.inl ⟨b, trivial, ?_⟩
    rw [poolEvent_map]
    exact hstep.next
  · rcases threadFunction_cases hf with hstep | ⟨hstep, -⟩
    · exact Or.inr ⟨rfl, hstep.sourceStep.pool⟩
    · exact Or.inr ⟨rfl, hstep.sourceStep.pool⟩
  · exact Or.inr ⟨rfl, rfl⟩

/-- A step of a thread keeps `SourceInv`. -/
theorem sourceInv_thread {tr : List (Event n)} {s : State n} (hinv : SourceInv tr s) {t : Tid n}
    {sh : Shared n} {pc : Pc} {e : Option (Event n)}
    (hstep : SourceStep s.shared (s.pc t) sh pc e) (hin : s.pc t ≠ .inPool ∧ pc ≠ .inPool) :
    SourceInv (tr ++ e.toList) ⟨s.pool, sh, Function.update s.pc t pc, s.faulted⟩ := by
  have hcalls : publishCalls (tr ++ e.toList) = publishCalls tr ++ (e.bind publishCallArg).toList :=
    filterMap_append_toList publishCallArg tr e
  have hpcs : ∀ t' arg, argOf (Function.update s.pc t pc t') = some arg →
      arg ∈ publishCalls (tr ++ e.toList) := by
    refine forall_update (P := fun (_ : Tid n) pc => ∀ arg, argOf pc = some arg →
      arg ∈ publishCalls (tr ++ e.toList)) ?_ fun t' _ arg h => mem_publishCalls_append (hinv.pc t' arg h)
    intro arg harg
    rcases hstep.arg arg harg with h | h
    · exact mem_publishCalls_append (hinv.pc t arg h)
    · rw [hcalls, h]
      simp
  have hinPool : InPoolInv ⟨s.pool, sh, Function.update s.pc t pc, s.faulted⟩ := by
    intro c
    by_cases hc : Tid.client c = t
    · have hbefore := hinv.inPool c
      rw [hc] at hbefore
      show Function.update s.pc t pc (.client c) = .inPool ↔ _
      rw [hc, Function.update_self]
      exact iff_of_false hin.2 fun h => hin.1 (hbefore.mpr h)
    · show Function.update s.pc t pc (.client c) = .inPool ↔ _
      rw [Function.update_of_ne hc]
      exact hinv.inPool c
  refine ⟨hinPool, hpcs, fun c arg h => mem_publishCalls_append (hinv.client c arg h), ?_, ?_, ?_, ?_,
    ?_⟩
  · intro task htask
    rw [poolTrace_append_thread hstep.pool] at htask
    exact mem_publishCalls_append (hinv.enqueued task htask)
  · intro x msg hmsg
    rcases hstep.inbox x msg hmsg with h | ⟨arg, harg, rfl⟩
    · exact (hinv.inbox x msg h).append
    · exact ⟨arg, mem_publishCalls_append (hinv.pc t arg harg), rfl⟩
  · intro t' k x msg hmem
    rcases List.mem_append.mp hmem with h | h
    · exact (hinv.got t' k x msg h).append
    · exact (hinv.inbox x msg (hstep.got t' k x msg (by simpa using h))).append
  · intro arg harg
    show arg.publish < sh.nextPublish
    rw [hstep.nextPublish]
    rw [hcalls] at harg
    rcases List.mem_append.mp harg with h | h
    · have hlt := hinv.lt arg h
      omega
    · rw [hstep.call arg (by simpa using h), (by simpa using h : e.bind publishCallArg = some arg)]
      simp
  · intro arg harg arg' harg' heq
    rw [hcalls] at harg harg'
    -- An old publish has a smaller number than the one that the step calls.
    have hnew : ∀ a ∈ publishCalls tr, ∀ b, e.bind publishCallArg = some b →
        a.publish ≠ b.publish := by
      intro a ha b hb
      have hlt := hinv.lt a ha
      rw [hstep.call b hb]
      omega
    rcases List.mem_append.mp harg with h | h <;> rcases List.mem_append.mp harg' with h' | h'
    · exact hinv.unique arg h arg' h' heq
    · exact absurd heq (hnew arg h arg' (by simpa using h'))
    · exact absurd heq.symm (hnew arg' h' arg (by simpa using h))
    · have h₁ : e.bind publishCallArg = some arg := by simpa using h
      have h₂ : e.bind publishCallArg = some arg' := by simpa using h'
      exact Option.some.inj (h₁.symm.trans h₂)

/-- A step of the pool keeps `SourceInv`. -/
theorem sourceInv_pool {capacity : UInt64} {hcap : capacity ≠ 0} {tr : List (Event n)} {s : State n}
    (hrun : (machine n capacity hcap).Run tr s) (hinv : SourceInv tr s)
    {b : ThreadPool.Action n PublisherTaskArg} {pool : ThreadPool.State n PublisherTaskArg}
    {t : Tid n} {pc : Pc} {e : Option (ThreadPool.Event n PublisherTaskArg)}
    (hstep : PoolStep s b pool t pc e) :
    SourceInv (tr ++ (e.map Event.pool).toList)
      ⟨pool, s.shared, Function.update s.pc t pc, s.faulted⟩ := by
  have hcalls : publishCalls (tr ++ (e.map Event.pool).toList) = publishCalls tr :=
    filterMap_append_of_none (publishCallArg_map e) tr
  have hpool := (poolRun_of_any hrun).snoc trivial hstep.next
  have hsame : ∀ (h₁ : ∀ t' arg, argOf (Function.update s.pc t pc t') = some arg →
        arg ∈ publishCalls tr)
      (h₂ : ∀ c arg, submitArg (pool.client c) = some arg → arg ∈ publishCalls tr)
      (h₃ : ∀ task ∈ enqueuedTasks (poolTrace tr ++ e.toList), task.arg ∈ publishCalls tr),
      SourceInv (tr ++ (e.map Event.pool).toList)
        ⟨pool, s.shared, Function.update s.pc t pc, s.faulted⟩ := by
    intro h₁ h₂ h₃
    refine ⟨(hstep.pendingArg hinv.inPool).1, by rwa [hcalls], by rwa [hcalls], ?_, ?_, ?_,
      by rw [hcalls]; exact hinv.lt, by rw [hcalls]; exact hinv.unique⟩
    · rwa [hcalls, poolTrace_append_pool]
    · exact fun x msg h => (hinv.inbox x msg h).append
    · intro t' k x msg hmem
      rcases List.mem_append.mp hmem with h | h
      · exact (hinv.got t' k x msg h).append
      · cases e <;> simp at h
  cases hstep with
  | @dispatcher d sh pcd e hidle hf =>
      have henqueued := dispatcherFunction_enqueued hf
      have htasks : enqueuedTasks (poolTrace tr ++ e.toList) = enqueuedTasks (poolTrace tr) :=
        filterMap_append_of_none henqueued _
      refine hsame ?_ hinv.client ?_
      · refine forall_update (P := fun (_ : Tid n) pc => ∀ arg, argOf pc = some arg →
          arg ∈ publishCalls tr) ?_ fun t' _ => hinv.pc t'
        intro arg harg
        unfold dispatcherPc at harg
        split at harg
        · rename_i d' task
          obtain rfl := Option.some.inj harg
          -- The task that is called has been enqueued.
          refine hinv.enqueued task ?_
          rw [← htasks]
          refine mem_enqueuedTasks_of_called hpool ?_
          rw [calledTasks, List.filterMap_append]
          exact List.mem_append_right _ (by simp [calledTask])
        · cases harg
      · rw [htasks]
        exact hinv.enqueued
  | @client c move sh pcc e pc₀ hf hpc =>
      obtain ⟨hsubmit, hput, -⟩ := clientFunction_submitArg hf
      refine hsame ?_ ?_ ?_
      · refine forall_update (P := fun (_ : Tid n) pc => ∀ arg, argOf pc = some arg →
          arg ∈ publishCalls tr) ?_ fun t' _ => hinv.pc t'
        intro arg harg
        rcases hpc with ⟨_, -, -, rfl⟩ | ⟨-, -, rfl⟩ | ⟨-, rfl⟩
        · cases harg
        · cases harg
        · split at harg <;> cases harg
      · refine forall_update (P := fun (_ : Nat) pc => ∀ arg, submitArg pc = some arg →
          arg ∈ publishCalls tr) ?_ fun c' _ => hinv.client c'
        intro arg harg
        rcases hsubmit arg harg with h | ⟨hidle, hmove⟩
        · exact hinv.client c arg h
        · rcases hpc with ⟨arg', hpub, hcall, -⟩ | ⟨-, hcall, -⟩ | ⟨hin, -⟩
          · rw [hcall] at hmove
            obtain rfl := ThreadPool.ClientMove.callSubmit.inj hmove
            exact hinv.pc (.client c) arg' (by rw [hpub]; rfl)
          · rw [hcall] at hmove
            cases hmove
          · exact absurd hidle ((hinv.inPool c).mp hin)
      · intro task htask
        rw [enqueuedTasks, filterMap_append_toList] at htask
        rcases List.mem_append.mp htask with h | h
        · exact hinv.enqueued task h
        · exact hinv.client c task.arg (hput task (by simpa using h)).1

/-- `SourceInv` holds in every state of every run. -/
theorem sourceInv_of_run {capacity : UInt64} {hcap : capacity ≠ 0} {tr : List (Event n)}
    {s : State n} (h : (machine n capacity hcap).Run tr s) : SourceInv tr s := by
  refine h.induction ?_ ?_
  · refine ⟨fun c => ?_, fun t arg h => ?_, fun c arg h => ?_, fun task h => ?_, fun x msg h => ?_,
      fun t k x msg h => ?_, fun arg h => ?_, fun arg h => ?_⟩
    · exact iff_of_false (by simp [machine, init]) (by simp [machine, init, ThreadPool.init])
    all_goals cases h
  · intro tr s a s' e hrun hinv _ hnext
    rcases next_cases hnext with ⟨b, pool, t, pc, e', -, hstep, rfl, -, -, rfl⟩ |
        ⟨t, move, sh, pc, rfl, hf, rfl⟩ | ⟨t, rfl, rfl⟩
    · exact sourceInv_pool hrun hinv hstep
    · rcases threadFunction_cases hf with hstep | ⟨hstep, -⟩
      · exact sourceInv_thread hinv hstep.sourceStep hstep.ne_inPool
      · exact sourceInv_thread hinv hstep.sourceStep hstep.ne_inPool
    · rw [Option.toList_none, List.append_nil]
      exact ⟨hinv.inPool, hinv.pc, hinv.client, hinv.enqueued, hinv.inbox, hinv.got, hinv.lt,
        hinv.unique⟩

end

end Miez.Proofs.MessageBroker
