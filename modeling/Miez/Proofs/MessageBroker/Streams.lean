import Miez.Lib.PubSub
import Miez.Proofs.MessageBroker.Delivery
import Miez.Proofs.MessageBroker.Receive

/-!
# `Miez.Proofs.MessageBroker.Streams`: the broker refines publish and subscribe

A fan-out puts its message into one inbox after the other, while receives take messages out of
them. Seen from outside it is one step of `Miez.Lib.PubSub`: the message belongs to the queue of
every subscriber of the channel from the step on at which the task locks the channel.
`stillComing` is the part of a queue that a fan-out under way has not put into the inbox yet.

* `StreamStep` says what a step of a thread does to the lists, the flags, the inboxes and what is
  still coming.
* `broker_refines_pubSub`: every run of the broker is a run of `PubSub.machine`, whose subscribers
  are the active proxies in the lists.
* `stream_of_subscription`: what a subscription receives is, without a gap, what is fanned out on
  its channel.
-/

set_option autoImplicit false

namespace Miez.Proofs.MessageBroker

open Miez.Lib
open Miez.Lib.PubSub (Subscriber)
open Miez.MessageBroker
open Miez.ThreadPool (Tid)

section
variable {n : Nat} {capacity : UInt64} {hcap : capacity ≠ 0}

/-! ### The queue of a subscriber -/

/-- The message that the thread has still to put into the inbox of `x`. -/
def coming (sh : Shared n) (pc : Pc) (x : Nat) : List Message :=
  match loopOf pc with
  | some (arg, ch, some i) =>
      if x ∈ (sh.channel ch).subscriberProxies.drop i then [arg.message] else []
  | _ => []

/-- The message that the holder of the channel of `x` has still to put into the inbox of `x`. -/
def stillComing (s : State n) (x : Nat) : List Message :=
  match (s.shared.channel (s.shared.proxy x).channel).mutex with
  | some t => coming s.shared (s.pc t) x
  | none => []

/-- The subscribers: the active proxies in the lists, each with the messages in its inbox and the
message that is still coming. -/
def subscriberOf (s : State n) : PubSub.State Nat CString Message := fun x =>
  let ch := s.shared.channel (s.shared.proxy x).channel
  if x ∈ ch.subscriberProxies ∧ (s.shared.proxy x).active = true then
    some ⟨ch.channelName, (s.shared.proxy x).inbox ++ stillComing s x⟩
  else none

/-- A fan-out is a publish, and a receive that gets a message is a take. -/
def pubSubEvent : Event n → Option (PubSub.Event Nat CString Message)
  | .fanout _ _ arg => some (.published arg.channelName arg.message)
  | .got _ _ x (some msg) => some (.taken x msg)
  | _ => none

/-- Nothing is coming from a thread without positions that it has to visit. -/
theorem coming_of_loop {sh : Shared n} {pc : Pc} {x : Nat}
    (h : ∀ arg ch i, loopOf pc ≠ some (arg, ch, some i)) : coming sh pc x = [] := by
  unfold coming
  split
  · exact absurd ‹_› (h _ _ _)
  · rfl

/-- What is coming from a thread whose walk stands at a position. -/
theorem coming_of_walk {sh : Shared n} {pc : Pc} {arg : PublisherTaskArg} {ch i x : Nat}
    (h : loopOf pc = some (arg, ch, some i)) :
    coming sh pc x
      = if x ∈ (sh.channel ch).subscriberProxies.drop i then [arg.message] else [] := by
  unfold coming
  rw [h]

/-- Nothing is coming from threads that walk over no list. -/
theorem coming_same_of_loop {sh sh' : Shared n} {pc pc' : Pc} (hpc : loopOf pc = none)
    (hpc' : loopOf pc' = none) (x : Nat) : coming sh' pc' x = coming sh pc x := by
  rw [coming_of_loop (by simp [hpc']), coming_of_loop (by simp [hpc])]

/-- What is coming depends on the walk and on the list of its channel. -/
theorem coming_congr {sh sh' : Shared n} {pc pc' : Pc} (hloop : loopOf pc' = loopOf pc)
    (hlists : ∀ arg ch h, loopOf pc = some (arg, ch, h) →
      (sh'.channel ch).subscriberProxies = (sh.channel ch).subscriberProxies) (x : Nat) :
    coming sh' pc' x = coming sh pc x := by
  unfold coming
  rw [hloop]
  split
  · rename_i hpc
    rw [hlists _ _ _ hpc]
  · rfl

/-- A proxy to which something is coming is in the list of the channel of the walk. -/
theorem mem_of_coming {sh : Shared n} {pc : Pc} {x : Nat} (h : coming sh pc x ≠ []) :
    ∃ arg ch i, loopOf pc = some (arg, ch, some i) ∧ x ∈ (sh.channel ch).subscriberProxies := by
  unfold coming at h
  split at h
  · rename_i arg ch i hpc
    split_ifs at h with hx
    · exact ⟨arg, ch, i, hpc, List.mem_of_mem_drop hx⟩
    · exact absurd rfl h
  · exact absurd rfl h

/-- Whatever is coming comes from the thread that holds the channel. -/
theorem stillComing_eq {s : State n} (hlist : ListInv s)
    (hlock : ∀ ch, LockInv (fun t => channelHeld (s.pc t) = some ch) (s.shared.channel ch).mutex)
    {t : Tid n} {x : Nat} (h : coming s.shared (s.pc t) x ≠ []) :
    stillComing s x = coming s.shared (s.pc t) x := by
  obtain ⟨arg, ch, i, hloop, hx⟩ := mem_of_coming h
  have hheld : (s.shared.channel ch).mutex = some t :=
    (hlock ch t).mp (channelHeld_of_loop hloop).1
  unfold stillComing
  rw [hlist.home ch x hx, hheld]

/-- Nothing is still coming when no thread has something to put. -/
theorem stillComing_nil {s : State n} {x : Nat} (h : ∀ t, coming s.shared (s.pc t) x = []) :
    stillComing s x = [] := by
  unfold stillComing
  split
  · exact h _
  · rfl

/-- What is still coming to `x` stays when what each thread has to put stays. -/
theorem stillComing_congr {s s' : State n} (hlist : ListInv s) (hlist' : ListInv s')
    (hlock : ∀ ch, LockInv (fun t => channelHeld (s.pc t) = some ch) (s.shared.channel ch).mutex)
    (hlock' : ∀ ch,
      LockInv (fun t => channelHeld (s'.pc t) = some ch) (s'.shared.channel ch).mutex) {x : Nat}
    (h : ∀ t, coming s'.shared (s'.pc t) x = coming s.shared (s.pc t) x) :
    stillComing s' x = stillComing s x := by
  by_cases hall : ∀ t, coming s.shared (s.pc t) x = []
  · rw [stillComing_nil hall, stillComing_nil fun t => (h t).trans (hall t)]
  · obtain ⟨t, ht⟩ := not_forall.mp hall
    rw [stillComing_eq hlist hlock ht, stillComing_eq hlist' hlock' (t := t) (by rwa [h t]), h t]

/-! ### The steps of a thread -/

/-- What a step of a thread does to the queues of the subscribers. -/
inductive StreamStep (t : Tid n) (sh : Shared n) (pc : Pc) (sh' : Shared n) (pc' : Pc)
    (e : Option (Event n)) : Prop where
  | create (name : CString) (id : UInt64) (ch : Nat)
      (hpc : pc = .subscribe name id (.newProxy ch)) (hsh : sh' = sh.newProxy id ch)
      (hpc' : pc' = .subscribe name id (.lockChannel ch sh.nextProxy)) (he : e = none)
  | join (name : CString) (id : UInt64) (ch x : Nat)
      (hpc : pc = .subscribe name id (.insertLast ch x))
      (hsh : sh' = sh.setChannel ch { sh.channel ch with
        subscriberProxies := (sh.channel ch).subscriberProxies ++ [x] })
      (hpc' : pc' = .subscribe name id (.unlockChannel ch x)) (he : e = none)
  | leave (x : Nat) (hsh : sh' = sh.deactivate x) (hpc : loopOf pc = none)
      (hpc' : loopOf pc' = none) (he : e = none)
  | unlink (k : Nat) (thenFree : Bool) (ch i : Nat)
      (hpc : pc = .unsubscribe k thenFree (.unlink ch i))
      (hsh : sh' = sh.setChannel ch { sh.channel ch with
        subscriberProxies := (sh.channel ch).subscriberProxies.eraseIdx i })
      (hpc' : pc' = .unsubscribe k thenFree (.unlockChannel ch)) (he : e = none)
  | fanout (arg : PublisherTaskArg) (ch : Nat)
      (hpc : pc = .publisherTask arg (.lockChannel ch)) (hfree : (sh.channel ch).mutex = none)
      (hsh : sh' = sh.setChannel ch { sh.channel ch with mutex := some t })
      (hpc' : pc' = .publisherTask arg (.begin ch)) (he : e = some (.fanout t ch arg))
  | put (arg : PublisherTaskArg) (ch i x : Nat)
      (hpc : pc = .publisherTask arg (.enqueue ch i x))
      (hsh : sh' = sh.setProxy x { sh.proxy x with
        inbox := (sh.proxy x).inbox ++ [arg.message] })
      (hpc' : pc' = .publisherTask arg (.lockInbox ch i x))
      (he : e = some (.put t x arg.message))
  | got (k : Nat) (tryReceive : Bool) (x : Nat) (hpc : pc = .receive k tryReceive (.dequeue x))
      (hsh : sh' = sh.setProxy x { sh.proxy x with inbox := (sh.proxy x).inbox.dequeue.2 })
      (hpc' : pc' = .idle) (he : e = some (.got t k x (sh.proxy x).inbox.dequeue.1))
  | quiet
      (hlists : ∀ ch, (sh'.channel ch).subscriberProxies = (sh.channel ch).subscriberProxies)
      (hhome : ∀ x, (sh'.proxy x).channel = (sh.proxy x).channel)
      (hactive : ∀ x, (sh'.proxy x).active = (sh.proxy x).active)
      (hinbox : ∀ x, (sh'.proxy x).inbox = (sh.proxy x).inbox)
      (hcoming : ∀ x, (sh.proxy x).active = true → coming sh' pc' x = coming sh pc x)
      (he : e.bind pubSubEvent = none)

/-- The flags after a write to a proxy that leaves its flag alone. -/
theorem setProxy_active_same {sh : Shared n} {x : Nat} {p : SubscriberProxy n}
    (hp : p.active = (sh.proxy x).active) (y : Nat) :
    ((sh.setProxy x p).proxy y).active = (sh.proxy y).active := by
  rw [setProxy_proxy]
  by_cases hy : y = x
  · rw [if_pos hy, hp, hy]
  · rw [if_neg hy]

/-- A walk that passes the position of an inactive proxy has as much to put as before. -/
theorem coming_pass {sh : Shared n} {pc pc' : Pc} {arg : PublisherTaskArg} {ch i y : Nat}
    (hpc : loopOf pc = some (arg, ch, some i)) (hpc' : loopOf pc' = some (arg, ch, some (i + 1)))
    (hy : (sh.channel ch).subscriberProxies[i]? = some y) {x : Nat} (hne : x ≠ y) :
    coming sh pc' x = coming sh pc x := by
  rw [coming_of_walk hpc, coming_of_walk hpc']
  obtain ⟨hi, rfl⟩ := List.getElem?_eq_some_iff.mp hy
  have hmem : x ∈ (sh.channel ch).subscriberProxies.drop (i + 1) ↔
      x ∈ (sh.channel ch).subscriberProxies.drop i := by
    rw [List.drop_eq_getElem_cons hi, List.mem_cons, or_iff_right hne]
  exact if_congr hmem rfl rfl

/-- A walk at the end of its list has nothing to put. -/
theorem coming_end {sh : Shared n} {pc pc' : Pc} {arg : PublisherTaskArg} {ch i : Nat}
    (hpc : loopOf pc = some (arg, ch, some i)) (hpc' : loopOf pc' = some (arg, ch, none))
    (hend : (sh.channel ch).subscriberProxies.drop i = []) (x : Nat) :
    coming sh pc' x = coming sh pc x := by
  rw [coming_of_walk hpc, hend, if_neg List.not_mem_nil, coming_of_loop]
  intro arg' ch' i' heq
  rw [hpc'] at heq
  cases heq

/-- A step of a thread is one of the steps of `StreamStep`. -/
theorem ThreadStep.streamStep {t : Tid n} {sh sh' : Shared n} {pc pc' : Pc}
    {e : Option (Event n)} (h : ThreadStep t sh pc sh' pc' e)
    (hfresh : (sh.channel sh.nextChannel).subscriberProxies = [])
    (hcurrent : ∀ ch i x, currentOf pc = some (ch, i, x) →
      (sh.channel ch).subscriberProxies[i]? = some x) : StreamStep t sh pc sh' pc' e := by
  -- The steps that write to no proxy, and those that leave the flag and the inbox of theirs.
  have hread : SameObjects sh sh' → sh'.proxy = sh.proxy →
      (∀ x, (sh.proxy x).active = true → coming sh' pc' x = coming sh pc x) →
      e.bind pubSubEvent = none → StreamStep t sh pc sh' pc' e :=
    fun hsame hproxy hcoming he => .quiet hsame.lists hsame.proxyChannel
      (fun x => by rw [hproxy]) (fun x => by rw [hproxy]) hcoming he
  have hstay : SameObjects sh sh' → sh'.proxy = sh.proxy → loopOf pc' = loopOf pc →
      e.bind pubSubEvent = none → StreamStep t sh pc sh' pc' e :=
    fun hsame hproxy hloop he => hread hsame hproxy
      (fun x _ => coming_congr hloop (fun _ ch _ _ => hsame.lists ch) x) he
  have hwrite : ∀ (x : Nat) (p : SubscriberProxy n), sh' = sh.setProxy x p →
      p.channel = (sh.proxy x).channel → p.active = (sh.proxy x).active →
      p.inbox = (sh.proxy x).inbox → loopOf pc' = loopOf pc → e.bind pubSubEvent = none →
      StreamStep t sh pc sh' pc' e := by
    intro x p hsh hchannel hactive hinbox hloop he
    subst hsh
    refine .quiet (fun _ => rfl) (fun y => ?_) (setProxy_active_same hactive)
      (setProxy_inbox_same hinbox) (fun y _ => coming_congr hloop (fun _ _ _ _ => rfl) y) he
    rw [setProxy_proxy]
    by_cases hy : y = x
    · rw [if_pos hy, hchannel, hy]
    · rw [if_neg hy]
  -- A walk passes an inactive proxy.
  have hpass : ∀ {arg : PublisherTaskArg} {ch i y : Nat}, loopOf pc = some (arg, ch, some i) →
      loopOf pc' = some (arg, ch, some (i + 1)) →
      (sh.channel ch).subscriberProxies[i]? = some y → (sh.proxy y).active = false →
      ∀ x, (sh.proxy x).active = true → coming sh pc' x = coming sh pc x := by
    intro arg ch i y hpc hpc' hy hinactive x hx
    refine coming_pass hpc hpc' hy ?_
    intro hxy
    rw [hxy, hinactive] at hx
    cases hx
  have hsetChannel : ∀ {ch : Nat} {c : Channel n},
      c.subscriberProxies = (sh.channel ch).subscriberProxies →
      SameObjects sh (sh.setChannel ch c) := fun hc => .setChannel hc
  cases h with
  | newProxy ch => exact .create _ _ ch rfl rfl rfl rfl
  | insertLast ch x => exact .join _ _ ch x rfl rfl rfl rfl
  | unlink ch i => exact .unlink _ _ ch i rfl rfl rfl rfl
  | deactivate x hx => exact .leave x rfl rfl rfl rfl
  | freeDeactivate ch i x => exact .leave x rfl rfl rfl rfl
  | fanout ch hfree => exact .fanout _ ch rfl hfree rfl rfl rfl
  | put ch i x => exact .put _ ch i x rfl rfl rfl rfl
  | got x => exact .got _ _ x rfl rfl rfl rfl
  -- The steps of a walk.
  | beginEmpty ch hempty =>
      exact hread (.refl sh) rfl
        (fun x _ => coming_end (i := 0) rfl rfl (by rw [hempty]; rfl) x) rfl
  | nextEnd ch i hend =>
      exact hread (.refl sh) rfl (fun x _ => coming_end rfl rfl (by simpa using hend) x) rfl
  | nextInactive ch i y hy hinactive =>
      exact hread (.refl sh) rfl (hpass rfl rfl hy hinactive) rfl
  | testInactive ch i y hinactive =>
      exact hread (.refl sh) rfl (hpass rfl rfl (hcurrent ch i y rfl) hinactive) rfl
  | taskUnlock ch =>
      refine hread (hsetChannel rfl) rfl (fun x _ => ?_) rfl
      have hidle : ∀ arg ch i, loopOf .idle ≠ some (arg, ch, some i) := by simp [loopOf]
      rw [coming_of_loop hidle, coming_of_loop (by simp [loopOf])]
  | taskLockInbox ch i x hfree => exact hwrite x _ rfl rfl rfl rfl rfl rfl
  | taskSignal ch i x waiting => exact hwrite x _ rfl rfl rfl rfl rfl rfl
  | taskUnlockInbox ch i x => exact hwrite x _ rfl rfl rfl rfl rfl rfl
  | taskMore hg => exact hstay (hg.sameObjects hfresh) hg.proxy.1 rfl rfl
  | taskFound hg => exact hstay (hg.sameObjects hfresh) hg.proxy.1 rfl rfl
  | subscribeMore hg => exact hstay (hg.sameObjects hfresh) hg.proxy.1 rfl rfl
  | subscribeFound hg => exact hstay (hg.sameObjects hfresh) hg.proxy.1 rfl rfl
  | subscribeLock ch x hfree => exact hstay (hsetChannel rfl) rfl rfl rfl
  | subscribeUnlock ch x => exact hstay (hsetChannel rfl) rfl rfl rfl
  | newSubscription x =>
      exact .quiet (fun _ => rfl) (fun _ => rfl) (fun _ => rfl) (fun _ => rfl)
        (fun y _ => coming_congr rfl (fun _ _ _ _ => rfl) y) rfl
  | unsubscribeLockChannel ch hfree => exact hstay (hsetChannel rfl) rfl rfl rfl
  | unsubscribeUnlockChannel ch => exact hstay (hsetChannel rfl) rfl rfl rfl
  | unsubscribeInbox x p u u' hp hinbox hu => exact hwrite x p rfl hp.channel hp.active hinbox rfl rfl
  | freeInbox ch i x p f f' hp hinbox hf => exact hwrite x p rfl hp.channel hp.active hinbox rfl rfl
  | freeRelease ch i x => exact hwrite x _ rfl rfl rfl rfl rfl rfl
  | receiveInbox x p hp hinbox hret =>
      rcases hret with ⟨r', rfl, rfl⟩ | ⟨rfl, rfl⟩ <;>
        exact hwrite x p rfl hp.channel hp.active hinbox rfl rfl
  | unsubscribeInactive hret =>
      rcases hret with ⟨rfl, rfl⟩ | ⟨rfl, rfl⟩ <;> exact hstay (.refl sh) rfl rfl rfl
  | clearProxy hret =>
      rcases hret with ⟨rfl, rfl⟩ | ⟨rfl, rfl⟩ <;>
        exact hstay (.setSubscription rfl fun x hx => (by cases hx)) rfl rfl rfl
  | receiveRead hret =>
      rcases hret with ⟨r', rfl, rfl⟩ | ⟨rfl, rfl⟩ <;> exact hstay (.refl sh) rfl rfl rfl
  | pendingRead hret =>
      rcases hret with ⟨rfl, rfl⟩ | ⟨rfl, count, rfl⟩ <;> exact hstay (.refl sh) rfl rfl rfl
  | _ =>
      exact .quiet (fun _ => rfl) (fun _ => rfl) (fun _ => rfl) (fun _ => rfl)
        (fun y _ => coming_congr rfl (fun _ _ _ _ => rfl) y) rfl

/-! ### What the subscribers rest on -/

/-- Nothing has been put into the inbox of a proxy that is not in its list yet. -/
def HandInv (tr : List (Event n)) (s : State n) : Prop :=
  ∀ t ch x, notListed (s.pc t) = some (ch, x) → puts tr x = []

/-- A channel with proxies in its list is the one that the table has for its name. -/
def ListedInTable (s : State n) : Prop :=
  ∀ ch x, x ∈ (s.shared.channel ch).subscriberProxies →
    s.shared.channels.get (s.shared.channel ch).channelName = some ch

/-- A proxy that a thread has still to put into its list was not made by the last step, or it is
the new one. -/
theorem ObjectStep.notListed_cases {t : Tid n} {sh sh' : Shared n} {pc pc' : Pc}
    {e : Option (Event n)} (h : ObjectStep t sh pc sh' pc' e) {ch x : Nat}
    (hx : notListed pc' = some (ch, x)) :
    notListed pc = some (ch, x) ∨ x = sh.nextProxy := by
  cases h with
  | newProxy name id ch' hpc hsh hpc' he =>
      rw [hpc'] at hx
      obtain ⟨rfl, rfl⟩ : ch' = ch ∧ sh.nextProxy = x := by simpa [notListed] using hx
      exact Or.inr rfl
  | insertLast name id ch' x' hpc hsh hpc' he =>
      rw [hpc'] at hx
      cases hx
  | unlink k thenFree ch' i hpc hsh hpc' he =>
      rw [hpc'] at hx
      cases hx
  | newSubscription name id x' hpc hsh hpc' he =>
      rw [hpc'] at hx
      cases hx
  | other hsame hhand hlisted he => exact Or.inl (hlisted ▸ hx)

/-- `HandInv` holds in every state of a run: a put is made into an inbox of a list. -/
theorem handInv_of_run {tr : List (Event n)} {s : State n}
    (h : (machine n capacity hcap).RunIf AllocationsSucceed tr s) : HandInv tr s := by
  refine invariant_of_run (I := HandInv) ?_ ?_ ?_ (fun _ _ _ hinv => hinv) h
  · intro t ch x hx
    cases hx
  · intro tr s b pool t pc e _ hinv _ _ hpc
    refine forall_update (P := fun (_ : Tid n) pc => ∀ ch x, notListed pc = some (ch, x) →
      puts (tr ++ (e.map Event.pool).toList) x = []) ?_ fun t' _ ch x hx => ?_
    · intro ch x hx
      rw [(handOf_of_inCall hpc).2] at hx
      cases hx
    · rw [puts_append_of_none (putOf_map e x)]
      exact hinv t' ch x hx
  · intro tr s t sh pc e hrun hinv hstep
    have hlist := listInv_of_run hrun
    have hobject := hstep.objectStep (fresh_of_run hrun _ le_rfl).2
    -- Nothing is put into the inbox of a proxy that is in no list.
    have hkeep : ∀ x, (∀ ch, x ∉ (s.shared.channel ch).subscriberProxies) → puts tr x = [] →
        puts (tr ++ e.toList) x = [] := by
      intro x hx hempty
      cases hstep.fanStep (currentInv_of_run hrun t) with
      | fanout arg ch hpc hfree hpc' he => rw [puts_append_of_none (by rw [he]; rfl), hempty]
      | put arg ch i y hpc hpc' he =>
          have hy := currentInv_of_run hrun t ch i y (by rw [hpc]; rfl)
          have hne : y ≠ x := by
            intro hyx
            exact hx ch (hyx ▸ List.mem_of_getElem? hy)
          rw [he, puts_append_put, if_neg hne, hempty]
      | advance arg ch i h' hpc hpc' hle hskip hfan he =>
          rw [puts_append_of_none (by rw [he]; rfl), hempty]
      | other hloop hfan hfanout hput => rw [puts_append_of_none (hput x), hempty]
    refine forall_update (P := fun (_ : Tid n) pc => ∀ ch x, notListed pc = some (ch, x) →
      puts (tr ++ e.toList) x = []) ?_ fun t' _ ch x hx =>
        hkeep x (hlist.unlisted t' ch x hx).1 (hinv t' ch x hx)
    intro ch x hx
    rcases hobject.notListed_cases hx with hold | rfl
    · exact hkeep x (hlist.unlisted t ch x hold).1 (hinv t ch x hold)
    · refine hkeep _ (fun ch' hmem => ?_) ((orderInv_of_run hrun).fresh _ le_rfl)
      exact absurd (hlist.bound ch' _ hmem) (Nat.lt_irrefl _)

/-- Nothing has been handed out of the inbox of a proxy that is not in its list yet, and nothing is
in it. -/
theorem hand_empty {tr : List (Event n)} {s : State n}
    (h : (machine n capacity hcap).RunIf AllocationsSucceed tr s) {t : Tid n} {ch x : Nat}
    (hx : notListed (s.pc t) = some (ch, x)) :
    handedOut tr x = [] ∧ (s.shared.proxy x).inbox = [] := by
  have hbalance := (inboxInv_of_run h).balance x
  rw [handInv_of_run h t ch x hx] at hbalance
  exact List.append_eq_nil_iff.mp hbalance

/-- `ListedInTable` holds in every state of a run. -/
theorem listedInTable_of_run {tr : List (Event n)} {s : State n}
    (h : (machine n capacity hcap).RunIf AllocationsSucceed tr s) : ListedInTable s := by
  refine invariant_of_run (I := fun _ s => ListedInTable s) ?_ ?_ ?_ (fun _ _ _ hinv => hinv) h
  · intro ch x hx
    cases hx
  · intro tr s b pool t pc e _ hinv _ _ _
    exact hinv
  · intro tr s t sh pc e hrun hinv hstep ch x hx
    have htable := tableInv_of_run hrun
    have hobject := hstep.objectStep (fresh_of_run hrun _ le_rfl).2
    -- A proxy of the new list was there before, or its subscribe has found the channel.
    have hget : s.shared.channels.get (s.shared.channel ch).channelName = some ch := by
      cases hobject with
      | newProxy name id ch' hpc hsh hpc' he => rw [hsh] at hx; exact hinv ch x hx
      | insertLast name id ch' x' hpc hsh hpc' he =>
          by_cases hch : ch = ch'
          · have hfound := htable.found t name ch' (by rw [hpc]; rfl)
            rw [hch, (htable.entry name ch' hfound).2]
            exact hfound
          · rw [hsh, setChannel_channel, if_neg hch] at hx
            exact hinv ch x hx
      | unlink k thenFree ch' i hpc hsh hpc' he =>
          rw [hsh, setChannel_channel] at hx
          split at hx
          · rename_i hch
            rw [hch]
            exact hinv ch' x ((List.eraseIdx_sublist _ _).subset hx)
          · exact hinv ch x hx
      | newSubscription name id x' hpc hsh hpc' he => rw [hsh] at hx; exact hinv ch x hx
      | other hsame hhand hlisted he => rw [hsame.lists] at hx; exact hinv ch x hx
    rw [hstep.channelName.2 ch (htable.entry _ ch hget).1]
    exact hstep.get_mono htable hget

/-! ### The simulation -/

/-- What the simulation uses of a state of a run. -/
structure StreamInv (s : State n) : Prop where
  list : ListInv s
  lock : ∀ ch, LockInv (fun t => channelHeld (s.pc t) = some ch) (s.shared.channel ch).mutex
  table : TableInv s
  listed : ListedInTable s
  hand : ∀ t ch x, notListed (s.pc t) = some (ch, x) → (s.shared.proxy x).inbox = []
  fresh : (s.shared.channel s.shared.nextChannel).subscriberProxies = []
  current : CurrentInv s

/-- `StreamInv` holds in every state of a run. -/
theorem streamInv_of_run {tr : List (Event n)} {s : State n}
    (h : (machine n capacity hcap).RunIf AllocationsSucceed tr s) : StreamInv s where
  list := listInv_of_run h
  lock := channelLock_of_run h
  table := tableInv_of_run h
  listed := listedInTable_of_run h
  hand _ _ _ hx := (hand_empty h hx).2
  fresh := (fresh_of_run h _ le_rfl).2
  current := currentInv_of_run h

/-- The proxy `x` is an active proxy in the list of its channel. -/
def Subscribes (sh : Shared n) (x : Nat) : Prop :=
  x ∈ (sh.channel (sh.proxy x).channel).subscriberProxies ∧ (sh.proxy x).active = true

/-- A proxy that subscribes is a subscriber. -/
theorem subscriberOf_of_subscribes {s : State n} {x : Nat} (h : Subscribes s.shared x) :
    subscriberOf s x = some ⟨(s.shared.channel (s.shared.proxy x).channel).channelName,
      (s.shared.proxy x).inbox ++ stillComing s x⟩ :=
  if_pos h

/-- A proxy that does not subscribe is not a subscriber. -/
theorem subscriberOf_of_not {s : State n} {x : Nat} (h : ¬ Subscribes s.shared x) :
    subscriberOf s x = none :=
  if_neg h

/-- A subscriber stays as it is when its proxy, its list, the name of its channel and what is
coming to it stay. -/
theorem subscriberOf_congr {s s' : State n} {x : Nat}
    (hiff : Subscribes s'.shared x ↔ Subscribes s.shared x)
    (hname : Subscribes s.shared x →
      (s'.shared.channel (s'.shared.proxy x).channel).channelName
        = (s.shared.channel (s.shared.proxy x).channel).channelName)
    (hqueue : Subscribes s.shared x → (s'.shared.proxy x).inbox ++ stillComing s' x
      = (s.shared.proxy x).inbox ++ stillComing s x) : subscriberOf s' x = subscriberOf s x := by
  by_cases hx : Subscribes s.shared x
  · rw [subscriberOf_of_subscribes hx, subscriberOf_of_subscribes (hiff.mpr hx), hname hx,
      hqueue hx]
  · rw [subscriberOf_of_not hx, subscriberOf_of_not fun hx' => hx (hiff.mp hx')]

/-- What is still coming comes from the holder of the channel. -/
theorem stillComing_of_held {s : State n} {x : Nat} {t : Tid n}
    (h : (s.shared.channel (s.shared.proxy x).channel).mutex = some t) :
    stillComing s x = coming s.shared (s.pc t) x := by
  unfold stillComing
  rw [h]

/-- Nothing is still coming on a channel that no thread holds. -/
theorem stillComing_of_free {s : State n} {x : Nat}
    (h : (s.shared.channel (s.shared.proxy x).channel).mutex = none) : stillComing s x = [] := by
  unfold stillComing
  rw [h]

/-- A step of the thread `t` from a state of a run to another one, as the simulation sees it. -/
structure ThreadMove (t : Tid n) (s s' : State n) : Prop where
  before : StreamInv s
  after : StreamInv s'
  walks : ∀ t', t' ≠ t → ∀ x, coming s'.shared (s'.pc t') x = coming s.shared (s.pc t') x
  names : ∀ ch x, x ∈ (s.shared.channel ch).subscriberProxies →
    (s'.shared.channel ch).channelName = (s.shared.channel ch).channelName

/-- What is still coming stays when the thread has as much to put as before. -/
theorem ThreadMove.stillComing_same {t : Tid n} {s s' : State n} (h : ThreadMove t s s') {x : Nat}
    (hcoming : coming s'.shared (s'.pc t) x = coming s.shared (s.pc t) x) :
    stillComing s' x = stillComing s x := by
  refine stillComing_congr h.before.list h.after.list h.before.lock h.after.lock fun t' => ?_
  by_cases ht : t' = t
  · rw [ht, hcoming]
  · exact h.walks t' ht x

/-- A subscriber stays as it is when its proxy and its list stay, and the thread has as much to
put as before. -/
theorem ThreadMove.subscriberOf_same {t : Tid n} {s s' : State n} (h : ThreadMove t s s') {x : Nat}
    (hhome : (s'.shared.proxy x).channel = (s.shared.proxy x).channel)
    (hlist : (x ∈ (s'.shared.channel (s.shared.proxy x).channel).subscriberProxies ↔
      x ∈ (s.shared.channel (s.shared.proxy x).channel).subscriberProxies))
    (hactive : (s'.shared.proxy x).active = (s.shared.proxy x).active)
    (hinbox : (s'.shared.proxy x).inbox = (s.shared.proxy x).inbox)
    (hcoming : (s.shared.proxy x).active = true →
      coming s'.shared (s'.pc t) x = coming s.shared (s.pc t) x) :
    subscriberOf s' x = subscriberOf s x := by
  refine subscriberOf_congr ?_ ?_ ?_
  · unfold Subscribes
    rw [hhome, hactive, hlist]
  · intro hx
    rw [hhome]
    exact h.names _ x hx.1
  · intro hx
    rw [hinbox, h.stillComing_same (hcoming hx.2)]

section
variable {t : Tid n} {s s' : State n}

/-- A proxy that is in no list does not subscribe. -/
theorem subscriberOf_of_unlisted {x : Nat}
    (h : ∀ ch, x ∉ (s.shared.channel ch).subscriberProxies) : subscriberOf s x = none :=
  subscriberOf_of_not fun hx => h _ hx.1

/-- A new proxy is in no list, so it is no subscriber yet. -/
theorem ThreadMove.create (h : ThreadMove t s s') {name : CString} {id : UInt64} {ch : Nat}
    (hpc : s.pc t = .subscribe name id (.newProxy ch)) (hsh : s'.shared = s.shared.newProxy id ch)
    (hpc' : s'.pc t = .subscribe name id (.lockChannel ch s.shared.nextProxy)) :
    subscriberOf s' = subscriberOf s := by
  have hlists : ∀ ch', (s'.shared.channel ch').subscriberProxies
      = (s.shared.channel ch').subscriberProxies := fun ch' => by rw [hsh]; rfl
  have hproxy : ∀ x, x ≠ s.shared.nextProxy → s'.shared.proxy x = s.shared.proxy x := by
    intro x hx
    rw [hsh]
    show (s.shared.setProxy s.shared.nextProxy _).proxy x = s.shared.proxy x
    rw [setProxy_proxy, if_neg hx]
  funext x
  by_cases hx : x = s.shared.nextProxy
  · have hunlisted : ∀ ch', x ∉ (s.shared.channel ch').subscriberProxies := by
      intro ch' hmem
      have hlt := h.before.list.bound ch' x hmem
      omega
    rw [subscriberOf_of_unlisted hunlisted,
      subscriberOf_of_unlisted fun ch' => by rw [hlists]; exact hunlisted ch']
  · refine h.subscriberOf_same (by rw [hproxy x hx]) (by rw [hlists]) (by rw [hproxy x hx])
      (by rw [hproxy x hx]) fun _ => ?_
    exact coming_same_of_loop (by rw [hpc]; rfl) (by rw [hpc']; rfl) x

/-- A subscribe that puts its proxy into the list joins with an empty queue. -/
theorem ThreadMove.join (h : ThreadMove t s s') {name : CString} {id : UInt64} {ch x : Nat}
    (hpc : s.pc t = .subscribe name id (.insertLast ch x))
    (hsh : s'.shared = s.shared.setChannel ch { s.shared.channel ch with
      subscriberProxies := (s.shared.channel ch).subscriberProxies ++ [x] })
    (hpc' : s'.pc t = .subscribe name id (.unlockChannel ch x)) :
    subscriberOf s x = none ∧ subscriberOf s' = Function.update (subscriberOf s) x
      (if (s.shared.proxy x).active = true then some ⟨name, []⟩ else none) := by
  obtain ⟨hunlisted, hhome⟩ := h.before.list.unlisted t ch x (by rw [hpc]; rfl)
  have hempty := h.before.hand t ch x (by rw [hpc]; rfl)
  have hname : (s.shared.channel ch).channelName = name :=
    (h.before.table.entry name ch (h.before.table.found t name ch (by rw [hpc]; rfl))).2
  have hheld : channelHeld (s.pc t) = some ch := by rw [hpc]; rfl
  have hproxy : s'.shared.proxy = s.shared.proxy := by rw [hsh]; rfl
  have hlist : ∀ ch' y, y ∈ (s'.shared.channel ch').subscriberProxies ↔
      y ∈ (s.shared.channel ch').subscriberProxies ∨ (ch' = ch ∧ y = x) := by
    intro ch' y
    rw [hsh, setChannel_channel]
    by_cases hch : ch' = ch
    · rw [if_pos hch, hch]
      simp
    · rw [if_neg hch]
      simp [hch]
  have hcoming : ∀ y, coming s'.shared (s'.pc t) y = coming s.shared (s.pc t) y :=
    coming_same_of_loop (by rw [hpc]; rfl) (by rw [hpc']; rfl)
  have hnone : subscriberOf s x = none := subscriberOf_of_unlisted hunlisted
  refine ⟨hnone, funext fun y => ?_⟩
  by_cases hy : y = x
  · subst hy
    rw [Function.update_self]
    by_cases hactive : (s.shared.proxy y).active = true
    · have hsub : Subscribes s'.shared y := by
        refine ⟨?_, by rw [hproxy]; exact hactive⟩
        rw [hproxy, hhome]
        exact (hlist ch y).mpr (Or.inr ⟨rfl, rfl⟩)
      -- Nothing comes from the thread that holds the channel, which is the one that joins.
      have hstill : stillComing s' y = [] := by
        rw [h.stillComing_same (hcoming y), stillComing_of_held (t := t), coming_of_loop]
        · simp [hpc, loopOf]
        · rw [hhome]
          exact (h.before.lock ch t).mp hheld
      rw [if_pos hactive, subscriberOf_of_subscribes hsub, hstill, hproxy, hhome, hempty, hsh,
        setChannel_channel, if_pos rfl]
      exact congrArg (fun name => some (Subscriber.mk name [])) hname
    · rw [if_neg hactive, subscriberOf_of_not]
      intro hsub
      exact hactive (hproxy ▸ hsub.2)
  · rw [Function.update_of_ne hy]
    refine h.subscriberOf_same (by rw [hproxy]) ?_ (by rw [hproxy]) (by rw [hproxy])
      fun _ => hcoming y
    rw [hlist]
    exact or_iff_left fun hyx => hy hyx.2

/-- A proxy that becomes inactive leaves. -/
theorem ThreadMove.leave (h : ThreadMove t s s') {x : Nat} (hsh : s'.shared = s.shared.deactivate x)
    (hpc : loopOf (s.pc t) = none) (hpc' : loopOf (s'.pc t) = none) :
    subscriberOf s' = Function.update (subscriberOf s) x none := by
  have hproxy : ∀ y, s'.shared.proxy y
      = if y = x then { s.shared.proxy x with active := false } else s.shared.proxy y := by
    intro y
    rw [hsh]
    exact setProxy_proxy _ _ _ _
  funext y
  by_cases hy : y = x
  · subst hy
    rw [Function.update_self, subscriberOf_of_not]
    intro hsub
    have hactive := hsub.2
    rw [hproxy, if_pos rfl] at hactive
    cases hactive
  · rw [Function.update_of_ne hy]
    refine h.subscriberOf_same (by rw [hproxy, if_neg hy]) ?_ (by rw [hproxy, if_neg hy])
      (by rw [hproxy, if_neg hy]) fun _ => ?_
    · rw [hsh]
      exact Iff.rfl
    · exact coming_same_of_loop hpc hpc' y

/-- A proxy that is taken out of its list leaves. -/
theorem ThreadMove.unlink (h : ThreadMove t s s') {k : Nat} {thenFree : Bool} {ch i : Nat}
    (hpc : s.pc t = .unsubscribe k thenFree (.unlink ch i))
    (hsh : s'.shared = s.shared.setChannel ch { s.shared.channel ch with
      subscriberProxies := (s.shared.channel ch).subscriberProxies.eraseIdx i })
    (hpc' : s'.pc t = .unsubscribe k thenFree (.unlockChannel ch)) :
    (∃ x, subscriberOf s' = Function.update (subscriberOf s) x none) ∨
      subscriberOf s' = subscriberOf s := by
  have hproxy : s'.shared.proxy = s.shared.proxy := by rw [hsh]; rfl
  have hcoming : ∀ y, coming s'.shared (s'.pc t) y = coming s.shared (s.pc t) y :=
    coming_same_of_loop (by rw [hpc]; rfl) (by rw [hpc']; rfl)
  have hsame : ∀ y, (∀ x, (s.shared.channel ch).subscriberProxies[i]? = some x → y ≠ x) →
      subscriberOf s' y = subscriberOf s y := by
    intro y hne
    refine h.subscriberOf_same (by rw [hproxy]) ?_ (by rw [hproxy]) (by rw [hproxy])
      fun _ => hcoming y
    rw [hsh, setChannel_channel]
    by_cases hch : (s.shared.proxy y).channel = ch
    · rw [if_pos hch, hch]
      refine ⟨fun hy => (List.eraseIdx_sublist _ _).subset hy, fun hy => ?_⟩
      obtain ⟨j, hj⟩ := List.mem_iff_getElem?.mp hy
      refine List.mem_eraseIdx_iff_getElem?.mpr ⟨j, ?_, hj⟩
      intro hji
      exact hne y (hji ▸ hj) rfl
    · rw [if_neg hch]
  cases hx : (s.shared.channel ch).subscriberProxies[i]? with
  | none => exact Or.inr (funext fun y => hsame y (by simp [hx]))
  | some x =>
      refine Or.inl ⟨x, funext fun y => ?_⟩
      by_cases hy : y = x
      · subst hy
        have hhome := h.before.list.home ch y (List.mem_of_getElem? hx)
        rw [Function.update_self, subscriberOf_of_not]
        intro hsub
        have hmem := hsub.1
        rw [hproxy, hhome, hsh, setChannel_channel, if_pos rfl] at hmem
        -- The list has no second copy of the proxy.
        obtain ⟨j, hji, hj⟩ := List.mem_eraseIdx_iff_getElem?.mp hmem
        obtain ⟨hlt, hget⟩ := List.getElem?_eq_some_iff.mp hj
        obtain ⟨hlt', hget'⟩ := List.getElem?_eq_some_iff.mp hx
        exact hji ((h.before.list.nodup ch).getElem_inj_iff.mp (hget.trans hget'.symm))
      · rw [Function.update_of_ne hy]
        refine hsame y fun x' hx' => ?_
        rw [hx] at hx'
        exact Option.some.inj hx' ▸ hy

/-- A task that locks its channel publishes: its message is now coming to each subscriber of the
channel. -/
theorem ThreadMove.fanout (h : ThreadMove t s s') {arg : PublisherTaskArg} {ch : Nat}
    (hpc : s.pc t = .publisherTask arg (.lockChannel ch))
    (hfree : (s.shared.channel ch).mutex = none)
    (hsh : s'.shared = s.shared.setChannel ch { s.shared.channel ch with mutex := some t })
    (hpc' : s'.pc t = .publisherTask arg (.begin ch)) :
    subscriberOf s' = fun x =>
      (subscriberOf s x).map (Subscriber.receive arg.channelName arg.message) := by
  have hfound : s.shared.channels.get arg.channelName = some ch :=
    h.before.table.found t _ ch (by rw [hpc]; rfl)
  have hname : (s.shared.channel ch).channelName = arg.channelName :=
    (h.before.table.entry _ ch hfound).2
  have hproxy : s'.shared.proxy = s.shared.proxy := by rw [hsh]; rfl
  have hlists : ∀ ch', (s'.shared.channel ch').subscriberProxies
      = (s.shared.channel ch').subscriberProxies := by
    intro ch'
    rw [hsh, setChannel_channel]
    split
    · rename_i hch
      rw [hch]
    · rfl
  have hiff : ∀ x, Subscribes s'.shared x ↔ Subscribes s.shared x := by
    intro x
    unfold Subscribes
    rw [hproxy, hlists]
  have hwalk' : loopOf (s'.pc t) = some (arg, ch, some 0) := by rw [hpc']; rfl
  funext x
  by_cases hx : Subscribes s.shared x
  · have hnames := h.names _ x hx.1
    rw [subscriberOf_of_subscribes hx, subscriberOf_of_subscribes ((hiff x).mpr hx), hproxy, hnames,
      Option.map_some]
    by_cases hhome : (s.shared.proxy x).channel = ch
    · -- The message is coming from the task, and nothing was coming before.
      have hmem : x ∈ (s'.shared.channel ch).subscriberProxies.drop 0 := by
        rw [List.drop_zero, hlists, ← hhome]
        exact hx.1
      have hstill : stillComing s x = [] := stillComing_of_free (by rw [hhome, hfree])
      have hstill' : stillComing s' x = [arg.message] := by
        rw [stillComing_of_held (t := t), coming_of_walk hwalk', if_pos hmem]
        rw [hproxy, hhome, hsh, setChannel_channel, if_pos rfl]
      rw [hstill, hstill', hhome, hname, Subscriber.receive, if_pos rfl, List.append_nil]
    · -- The table has one channel for a name, so the name of this one is another.
      have hother : (s.shared.channel (s.shared.proxy x).channel).channelName ≠ arg.channelName := by
        intro heq
        have hget := h.before.listed _ x hx.1
        rw [heq, hfound] at hget
        exact hhome (Option.some.inj hget).symm
      have hcoming : coming s'.shared (s'.pc t) x = coming s.shared (s.pc t) x := by
        rw [coming_of_walk hwalk', if_neg, coming_of_loop]
        · simp [hpc, loopOf]
        · intro hmem
          rw [List.drop_zero, hlists] at hmem
          exact hhome (h.before.list.home ch x hmem)
      rw [h.stillComing_same hcoming, Subscriber.receive, if_neg hother]
  · rw [subscriberOf_of_not hx, subscriberOf_of_not fun hx' => hx ((hiff x).mp hx')]
    rfl

/-- A put moves a message that was coming into the inbox, which changes no queue. -/
theorem ThreadMove.put (h : ThreadMove t s s') {arg : PublisherTaskArg} {ch i x : Nat}
    (hpc : s.pc t = .publisherTask arg (.enqueue ch i x))
    (hsh : s'.shared = s.shared.setProxy x { s.shared.proxy x with
      inbox := (s.shared.proxy x).inbox ++ [arg.message] })
    (hpc' : s'.pc t = .publisherTask arg (.lockInbox ch i x)) :
    subscriberOf s' = subscriberOf s := by
  have hx : (s.shared.channel ch).subscriberProxies[i]? = some x :=
    h.before.current t ch i x (by rw [hpc]; rfl)
  have hhome := h.before.list.home ch x (List.mem_of_getElem? hx)
  have hheld : channelHeld (s.pc t) = some ch := by rw [hpc]; rfl
  have hheld' : channelHeld (s'.pc t) = some ch := by rw [hpc']; rfl
  have hwalk : loopOf (s.pc t) = some (arg, ch, some i) := by rw [hpc]; rfl
  have hwalk' : loopOf (s'.pc t) = some (arg, ch, some (i + 1)) := by rw [hpc']; rfl
  have hproxy : ∀ y, s'.shared.proxy y = if y = x then { s.shared.proxy x with
      inbox := (s.shared.proxy x).inbox ++ [arg.message] } else s.shared.proxy y := by
    intro y
    rw [hsh]
    exact setProxy_proxy _ _ _ _
  have hchannel : s'.shared.channel = s.shared.channel := by rw [hsh]; rfl
  funext y
  by_cases hy : y = x
  · subst hy
    refine subscriberOf_congr ?_ ?_ fun _ => ?_
    · unfold Subscribes
      rw [hproxy, if_pos rfl, hchannel]
    · intro _
      rw [hproxy, if_pos rfl, hchannel]
    · -- The proxy stands at the position of the walk, and only there.
      have hcoming : coming s.shared (s.pc t) y = [arg.message] := by
        rw [coming_of_walk hwalk, if_pos (List.mem_of_getElem? (i := 0) (by simpa using hx))]
      have hpassed : coming s'.shared (s'.pc t) y = [] := by
        rw [coming_of_walk hwalk', hchannel, if_neg]
        obtain ⟨hi, hget⟩ := List.getElem?_eq_some_iff.mp hx
        have hdrop := (h.before.list.nodup ch).sublist (List.drop_sublist i _)
        rw [List.drop_eq_getElem_cons hi, List.nodup_cons, hget] at hdrop
        exact hdrop.1
      rw [stillComing_of_held (t := t), stillComing_of_held (s := s) (t := t), hcoming, hpassed,
        hproxy, if_pos rfl, List.append_nil]
      · rw [hhome]
        exact (h.before.lock ch t).mp hheld
      · rw [hproxy, if_pos rfl, hhome]
        exact (h.after.lock ch t).mp hheld'
  · refine h.subscriberOf_same (by rw [hproxy, if_neg hy]) (by rw [hchannel])
      (by rw [hproxy, if_neg hy]) (by rw [hproxy, if_neg hy]) fun _ => ?_
    have hpass : coming s.shared (s'.pc t) y = coming s.shared (s.pc t) y :=
      coming_pass hwalk hwalk' hx hy
    rw [← hpass, coming_of_walk hwalk', coming_of_walk hwalk', hchannel]

/-- A receive that takes a message out of an inbox takes the first message of the queue. -/
theorem ThreadMove.got (h : ThreadMove t s s') {k : Nat} {tryReceive : Bool} {x : Nat}
    (hpc : s.pc t = .receive k tryReceive (.dequeue x))
    (hsh : s'.shared = s.shared.setProxy x { s.shared.proxy x with
      inbox := (s.shared.proxy x).inbox.dequeue.2 })
    (hpc' : s'.pc t = .idle) {msg : Message} {rest : List Message}
    (hinbox : (s.shared.proxy x).inbox = msg :: rest) :
    (∀ y, y ≠ x → subscriberOf s' y = subscriberOf s y) ∧
    (subscriberOf s x = none ∧ subscriberOf s' x = none ∨
      ∃ topic queue, subscriberOf s x = some ⟨topic, msg :: queue⟩ ∧
        subscriberOf s' x = some ⟨topic, queue⟩) := by
  have hproxy : ∀ y, s'.shared.proxy y = if y = x then { s.shared.proxy x with inbox := rest }
      else s.shared.proxy y := by
    intro y
    rw [hsh, setProxy_proxy, hinbox]
    rfl
  have hchannel : s'.shared.channel = s.shared.channel := by rw [hsh]; rfl
  have hcoming : ∀ y, coming s'.shared (s'.pc t) y = coming s.shared (s.pc t) y :=
    coming_same_of_loop (by rw [hpc]; rfl) (by rw [hpc']; rfl)
  have hiff : Subscribes s'.shared x ↔ Subscribes s.shared x := by
    unfold Subscribes
    rw [hproxy, if_pos rfl, hchannel]
  constructor
  · intro y hy
    exact h.subscriberOf_same (by rw [hproxy, if_neg hy]) (by rw [hchannel])
      (by rw [hproxy, if_neg hy]) (by rw [hproxy, if_neg hy]) fun _ => hcoming y
  · by_cases hx : Subscribes s.shared x
    · refine Or.inr ⟨_, _, ?_, subscriberOf_of_subscribes (hiff.mpr hx)⟩
      rw [subscriberOf_of_subscribes hx, h.stillComing_same (hcoming x), hproxy, if_pos rfl,
        hchannel, hinbox]
      rfl
    · exact Or.inl ⟨subscriberOf_of_not hx, subscriberOf_of_not fun hx' => hx (hiff.mp hx')⟩

/-- A receive that finds the inbox empty takes nothing. -/
theorem ThreadMove.gotNone (h : ThreadMove t s s') {k : Nat} {tryReceive : Bool} {x : Nat}
    (hpc : s.pc t = .receive k tryReceive (.dequeue x))
    (hsh : s'.shared = s.shared.setProxy x { s.shared.proxy x with
      inbox := (s.shared.proxy x).inbox.dequeue.2 })
    (hpc' : s'.pc t = .idle) (hinbox : (s.shared.proxy x).inbox = []) :
    subscriberOf s' = subscriberOf s := by
  have hproxy : s'.shared.proxy = s.shared.proxy := by
    rw [hsh, hinbox]
    show Function.update s.shared.proxy x _ = s.shared.proxy
    refine Function.update_eq_self_iff.mpr ?_
    show (⟨_, [], _, _, _, _, _⟩ : SubscriberProxy n) = s.shared.proxy x
    rw [← hinbox]
  funext y
  refine h.subscriberOf_same (by rw [hproxy]) ?_ (by rw [hproxy]) (by rw [hproxy])
    fun _ => coming_same_of_loop (by rw [hpc]; rfl) (by rw [hpc']; rfl) y
  rw [hsh]
  exact Iff.rfl

/-- Each step of a thread is a step of publish and subscribe, or changes no queue. -/
theorem ThreadMove.simulates (h : ThreadMove t s s') {e : Option (Event n)}
    (hstep : StreamStep t s.shared (s.pc t) s'.shared (s'.pc t) e) :
    (∃ a, PubSub.next (subscriberOf s) a = some (subscriberOf s', e.bind pubSubEvent)) ∨
    (subscriberOf s' = subscriberOf s ∧ e.bind pubSubEvent = none) := by
  cases hstep with
  | create name id ch hpc hsh hpc' he =>
      rw [he]
      exact Or.inr ⟨h.create hpc hsh hpc', rfl⟩
  | join name id ch x hpc hsh hpc' he =>
      obtain ⟨hnone, hnew⟩ := h.join hpc hsh hpc'
      rw [he, hnew]
      by_cases hactive : (s.shared.proxy x).active = true
      · refine Or.inl ⟨.join x name, ?_⟩
        rw [if_pos hactive]
        exact if_pos (by rw [hnone]; rfl)
      · refine Or.inr ⟨?_, rfl⟩
        rw [if_neg hactive, ← hnone, Function.update_eq_self]
  | leave x hsh hpc hpc' he =>
      rw [he, h.leave hsh hpc hpc']
      exact Or.inl ⟨.leave x, rfl⟩
  | unlink k thenFree ch i hpc hsh hpc' he =>
      rw [he]
      rcases h.unlink hpc hsh hpc' with ⟨x, hleft⟩ | hsame
      · exact Or.inl ⟨.leave x, by rw [hleft]; rfl⟩
      · exact Or.inr ⟨hsame, rfl⟩
  | fanout arg ch hpc hfree hsh hpc' he =>
      rw [he, h.fanout hpc hfree hsh hpc']
      exact Or.inl ⟨.publish arg.channelName arg.message, rfl⟩
  | put arg ch i x hpc hsh hpc' he =>
      rw [he]
      exact Or.inr ⟨h.put hpc hsh hpc', rfl⟩
  | got k tryReceive x hpc hsh hpc' he =>
      cases hinbox : (s.shared.proxy x).inbox with
      | nil =>
          exact Or.inr ⟨h.gotNone hpc hsh hpc' hinbox, by rw [he, hinbox]; rfl⟩
      | cons msg rest =>
          obtain ⟨hothers, hx⟩ := h.got hpc hsh hpc' hinbox
          have hevent : e.bind pubSubEvent = some (.taken x msg) := by
            rw [he, hinbox]
            rfl
          rw [hevent]
          rcases hx with ⟨hnone, hnone'⟩ | ⟨topic, queue, hx, hx'⟩
          · have hsame : subscriberOf s' = subscriberOf s := by
              funext y
              by_cases hy : y = x
              · rw [hy, hnone, hnone']
              · exact hothers y hy
            rw [hsame]
            exact Or.inl ⟨.late x msg, if_pos (by rw [hnone]; rfl)⟩
          · have hupdate : subscriberOf s'
                = Function.update (subscriberOf s) x (some ⟨topic, queue⟩) := by
              funext y
              by_cases hy : y = x
              · rw [hy, hx', Function.update_self]
              · rw [Function.update_of_ne hy, hothers y hy]
            refine Or.inl ⟨.take x, ?_⟩
            rw [hupdate]
            simp only [PubSub.next, hx]
  | quiet hlists hhome hactive hinbox hcoming he =>
      refine Or.inr ⟨funext fun x => ?_, he⟩
      exact h.subscriberOf_same (hhome x) (by rw [hlists]) (hactive x) (hinbox x) (hcoming x)

/-- A proxy that is a subscriber after a step of a thread and was none before is the one that the
thread puts into its list. -/
theorem ThreadMove.joined (h : ThreadMove t s s') {e : Option (Event n)}
    (hstep : StreamStep t s.shared (s.pc t) s'.shared (s'.pc t) e) {x : Nat}
    (hbefore : subscriberOf s x = none) (hafter : (subscriberOf s' x).isSome = true) :
    e = none ∧ (∃ name id ch, s.pc t = .subscribe name id (.insertLast ch x) ∧
      s'.pc t = .subscribe name id (.unlockChannel ch x)) := by
  -- The other steps make no subscriber.
  have hnot : subscriberOf s' x = none → False := by
    intro hnone
    rw [hnone] at hafter
    cases hafter
  cases hstep with
  | join name id ch y hpc hsh hpc' he =>
      by_cases hxy : x = y
      · rw [hxy]
        exact ⟨he, name, id, ch, hpc, hpc'⟩
      · refine (hnot ?_).elim
        rw [(h.join hpc hsh hpc').2, Function.update_of_ne hxy, hbefore]
  | create name id ch hpc hsh hpc' he =>
      exact (hnot (by rw [h.create hpc hsh hpc', hbefore])).elim
  | leave y hsh hpc hpc' he =>
      refine (hnot ?_).elim
      rw [h.leave hsh hpc hpc', Function.update_apply, hbefore, ite_self]
  | unlink k thenFree ch i hpc hsh hpc' he =>
      refine (hnot ?_).elim
      rcases h.unlink hpc hsh hpc' with ⟨y, hleft⟩ | hsame
      · rw [hleft, Function.update_apply, hbefore, ite_self]
      · rw [hsame, hbefore]
  | fanout arg ch hpc hfree hsh hpc' he =>
      refine (hnot ?_).elim
      have hx := congrFun (h.fanout hpc hfree hsh hpc') x
      rwa [hbefore, Option.map_none] at hx
  | put arg ch i y hpc hsh hpc' he =>
      exact (hnot (by rw [h.put hpc hsh hpc', hbefore])).elim
  | got k tryReceive y hpc hsh hpc' he =>
      refine (hnot ?_).elim
      cases hinbox : (s.shared.proxy y).inbox with
      | nil => rw [h.gotNone hpc hsh hpc' hinbox, hbefore]
      | cons msg rest =>
          obtain ⟨hothers, hy⟩ := h.got hpc hsh hpc' hinbox
          by_cases hxy : x = y
          · rcases hy with ⟨-, hnone⟩ | ⟨topic, queue, hsome, -⟩
            · rw [hxy, hnone]
            · rw [← hxy, hbefore] at hsome
              cases hsome
          · rw [hothers x hxy, hbefore]
  | quiet hlists hhome hactive hinbox hcoming he =>
      refine (hnot ?_).elim
      rw [h.subscriberOf_same (hhome x) (by rw [hlists]) (hactive x) (hinbox x) (hcoming x),
        hbefore]

end

/-- The step of a thread inside a broker function, between two states of a run. -/
theorem threadMove_of_run {tr tr' : List (Event n)} {s : State n} {t : Tid n} {sh : Shared n}
    {pc : Pc} {e : Option (Event n)}
    (hrun : (machine n capacity hcap).RunIf AllocationsSucceed tr s)
    (hrun' : (machine n capacity hcap).RunIf AllocationsSucceed tr'
      ⟨s.pool, sh, Function.update s.pc t pc, s.faulted⟩)
    (hstep : ThreadStep t s.shared (s.pc t) sh pc e) :
    ThreadMove t s ⟨s.pool, sh, Function.update s.pc t pc, s.faulted⟩ where
  before := streamInv_of_run hrun
  after := streamInv_of_run hrun'
  walks := by
    intro t' ht x
    have hobject := hstep.objectStep (fresh_of_run hrun _ le_rfl).2
    show coming sh (Function.update s.pc t pc t') x = coming s.shared (s.pc t') x
    rw [Function.update_of_ne ht]
    refine coming_congr rfl (fun arg ch i hloop => ?_) x
    obtain ⟨hheld, htask⟩ := channelHeld_of_loop hloop
    exact list_of_task_held (channelLock_of_run hrun) hobject hheld htask
  names := by
    intro ch x hx
    have htable := tableInv_of_run hrun
    exact hstep.channelName.2 ch (htable.entry _ ch (listedInTable_of_run hrun ch x hx)).1

/-- A step of the broker, as the subscribers see it: a step of a thread inside a broker function,
or a step that changes no queue. -/
theorem threadMove_or_same {tr : List (Event n)} {s s' : State n} {a : Action n}
    {e : Option (Event n)} (hrun : (machine n capacity hcap).RunIf AllocationsSucceed tr s)
    (hK : AllocationsSucceed s a) (hnext : (machine n capacity hcap).next s a = some (s', e)) :
    (∃ t, ThreadMove t s s' ∧ StreamStep t s.shared (s.pc t) s'.shared (s'.pc t) e) ∨
    (subscriberOf s' = subscriberOf s ∧ e.bind pubSubEvent = none) := by
  have hrun' := hrun.snoc hK hnext
  rcases next_cases hnext with ⟨b, pool, t, pc, e', -, -, rfl, hold, hnew, rfl⟩ |
    ⟨t, move, sh, pc, rfl, hf, rfl⟩ | ⟨t, rfl, rfl⟩
  · -- A step of the pool leaves the objects and the walks alone.
    refine Or.inr ⟨funext fun x => ?_, by cases e' <;> rfl⟩
    refine subscriberOf_congr Iff.rfl (fun _ => rfl) fun _ => ?_
    refine congrArg ((s.shared.proxy x).inbox ++ ·) ?_
    refine stillComing_congr (listInv_of_run hrun) (listInv_of_run hrun')
      (channelLock_of_run hrun) (channelLock_of_run hrun') fun t' => ?_
    refine forall_update (P := fun t' pc' =>
      coming s.shared pc' x = coming s.shared (s.pc t') x) ?_ (fun _ _ => rfl) t'
    exact coming_same_of_loop (loopOf_of_inCall hold) (loopOf_of_inCall hnew) x
  · have hstep := threadFunction_step hf (by rintro rfl; exact hK) (by rintro rfl; exact hK)
      (onFailurePath_of_run hrun t)
    refine Or.inl ⟨t, threadMove_of_run hrun hrun' hstep, ?_⟩
    show StreamStep t s.shared (s.pc t) sh (Function.update s.pc t pc t) e
    rw [Function.update_self]
    exact hstep.streamStep (fresh_of_run hrun _ le_rfl).2 (currentInv_of_run hrun t)
  · exact Or.inr ⟨rfl, rfl⟩

/-- Every step of the broker is a step of publish and subscribe, or changes no queue. -/
theorem simulates_of_run {tr : List (Event n)} {s s' : State n} {a : Action n}
    {e : Option (Event n)} (hrun : (machine n capacity hcap).RunIf AllocationsSucceed tr s)
    (hK : AllocationsSucceed s a) (hnext : (machine n capacity hcap).next s a = some (s', e)) :
    (∃ a', PubSub.next (subscriberOf s) a' = some (subscriberOf s', e.bind pubSubEvent)) ∨
    (subscriberOf s' = subscriberOf s ∧ e.bind pubSubEvent = none) := by
  rcases threadMove_or_same hrun hK hnext with ⟨t, hmove, hstep⟩ | hsame
  · exact hmove.simulates hstep
  · exact Or.inr hsame

/-- The broker refines publish and subscribe: every run is a run of `PubSub.machine`, in which a
fan-out publishes its message on the name of its channel in one step, and a receive takes the first
message of the queue of its subscriber. -/
theorem broker_refines_pubSub {tr : List (Event n)} {s : State n}
    (h : (machine n capacity hcap).RunIf AllocationsSucceed tr s) :
    (PubSub.machine Nat CString Message).Run (tr.filterMap pubSubEvent) (subscriberOf s) := by
  refine h.map subscriberOf pubSubEvent (funext fun x => rfl) ?_
  intro tr s a s' e hrun hK hnext
  exact (simulates_of_run hrun hK hnext).imp (fun ⟨a', ha'⟩ => ⟨a', trivial, ha'⟩) id

/-- A task has locked its channel and put nothing into an inbox yet. Its message is published, and
in the queue of the subscriber. -/
theorem broker_refines_pubSub_fanout :
    ∃ (tr : List (Event 1)) (s : State 1) (name : CString) (msg : Message),
      (machine 1 1 (by decide)).RunIf AllocationsSucceed tr s ∧ (s.shared.proxy 0).inbox = [] ∧
      (PubSub.machine Nat CString Message).Run [.published name msg] (subscriberOf s) ∧
      subscriberOf s 0 = some ⟨name, [msg]⟩ := by
  let name : CString := ⟨[99], by decide⟩
  let m : Message := ⟨1, name, ⟨[49], by decide⟩, 0⟩
  obtain ⟨tr, s, hrun, htest⟩ := Machine.runIf_of_exec (M := machine 1 1 (by decide))
    (K := AllocationsSucceed)
    (subscribeSchedule 0 name true ++ publishSchedule 1 name m.content
      ++ (taskSchedule 0 1).take 12)
    (fun tr s => decide ((s.shared.proxy 0).inbox = [] ∧
      tr.filterMap pubSubEvent = [.published name m] ∧ subscriberOf s 0 = some ⟨name, [m]⟩))
    (by decide +kernel)
  obtain ⟨hinbox, htr, hsub⟩ := of_decide_eq_true htest
  exact ⟨tr, s, name, m, hrun, hinbox, htr ▸ broker_refines_pubSub hrun, hsub⟩

/-! ### The stream of a subscription -/

/-- The message that the event fans out on the channel with a name. -/
def fanoutOn (channelName : CString) : Event n → Option Message
  | .fanout _ _ arg => if arg.channelName = channelName then some arg.message else none
  | _ => none

/-- The messages fanned out on the channel with a name, in the order of the fan-outs. -/
def fannedOut (tr : List (Event n)) (channelName : CString) : List Message :=
  tr.filterMap (fanoutOn channelName)

/-- The messages published, as the simulation reads them, are the ones fanned out. -/
theorem published_pubSubEvent (tr : List (Event n)) (channelName : CString) :
    PubSub.published (tr.filterMap pubSubEvent) channelName = fannedOut tr channelName := by
  rw [PubSub.published, fannedOut, List.filterMap_filterMap]
  refine List.filterMap_congr fun e _ => ?_
  cases e with
  | got t k y msg => cases msg <;> rfl
  | _ => rfl

/-- The messages taken, as the simulation reads them, are the ones handed out. -/
theorem taken_pubSubEvent (tr : List (Event n)) (x : Nat) :
    PubSub.taken (tr.filterMap pubSubEvent) x = handedOut tr x := by
  rw [PubSub.taken, handedOut, List.filterMap_filterMap]
  refine List.filterMap_congr fun e _ => ?_
  cases e with
  | got t k y msg => cases msg <;> by_cases hy : y = x <;> simp [pubSubEvent, gotOf, PubSub.takenBy, hy]
  | _ => rfl

/-- A subscriber has got, or has in its queue, a last part of what was fanned out on its channel.
The part starts where the subscribe put the proxy into the list, before it returned. -/
theorem stream_of_subscriber {tr : List (Event n)} {s : State n}
    (h : (machine n capacity hcap).RunIf AllocationsSucceed tr s) {x : Nat}
    {sub : Subscriber CString Message} (hx : subscriberOf s x = some sub) :
    ∃ pre post, tr = pre ++ post ∧ (∀ k, ¬ Owned pre k x) ∧
      handedOut tr x ++ sub.queue = fannedOut post sub.topic := by
  obtain ⟨pre, post, s₀, a, s₁, e, rfl, hrun, hK, hnext, hbefore, hafter, hstream⟩ :=
    PubSub.stream_of_simulation subscriberOf pubSubEvent (fun _ => rfl)
      (fun _ _ _ _ _ hrun hK hnext => simulates_of_run hrun hK hnext) h hx
  -- The step at which the proxy became a subscriber put it into the list.
  have hjoined : e = none ∧ (∃ t name id ch, s₀.pc t = .subscribe name id (.insertLast ch x)) := by
    rcases threadMove_or_same hrun hK hnext with ⟨t, hmove, hstep⟩ | ⟨hsame, -⟩
    · obtain ⟨he, name, id, ch, hpc, -⟩ := hmove.joined hstep hbefore hafter
      exact ⟨he, t, name, id, ch, hpc⟩
    · rw [hsame, hbefore] at hafter
      cases hafter
  obtain ⟨rfl, t, name, id, ch, hpc⟩ := hjoined
  have hnotListed : notListed (s₀.pc t) = some (ch, x) := by rw [hpc]; rfl
  have hempty : handedOut pre x = [] := (hand_empty hrun hnotListed).1
  have hnotOwned := ((ownerInv_of_run hrun).hand t name id x (by rw [hpc]; rfl)).2.2
  refine ⟨pre, post, by simp, hnotOwned, ?_⟩
  rw [taken_pubSubEvent, published_pubSubEvent] at hstream
  have hsplit : handedOut ((pre ++ (none : Option (Event n)).toList) ++ post) x
      = handedOut post x := by
    rw [Option.toList_none, List.append_nil, handedOut, List.filterMap_append]
    rw [← handedOut, hempty, List.nil_append]
    rfl
  rw [hsplit, hstream]

/-- The stream of a subscription, in a run with fewer than 2^64 subscribes in which it is not
unsubscribed. The messages handed out, those in the inbox and the one still coming are, in order
and without a gap, all messages fanned out on its channel since the subscribe returned, after some
of the last ones that were fanned out while it was under way. -/
theorem stream_of_subscription {tr pre post : List (Event n)} {s : State n}
    (h : (machine n capacity hcap).RunIf AllocationsSucceed tr s)
    (hbound : s.shared.nextSubscribe < 2 ^ 64) {t : Tid n} {k x : Nat} {name : CString}
    (htr : tr = pre ++ .subscribed t k x name :: post) (hnot : ∀ t', .unsubscribeCall t' k ∉ tr) :
    ∃ early, early <:+ fannedOut pre name ∧
      handedOut tr x ++ ((s.shared.proxy x).inbox ++ stillComing s x)
        = early ++ fannedOut post name := by
  have hmem : .subscribed t k x name ∈ tr := by simp [htr]
  obtain ⟨-, hlt, -, hget⟩ := (ownerInv_of_run h).owned t k x name hmem
  -- The proxy is a subscriber of the channel.
  obtain ⟨hactive, hlisted⟩ := present_of_run h hbound x hlt
    (not_unsubscribing h (List.Subset.refl tr) hmem hnot)
  have hsub : Subscribes s.shared x := by
    refine ⟨hlisted.resolve_right ?_, hactive⟩
    rintro ⟨t', ht'⟩
    obtain ⟨name', id', hhand⟩ := handOf_of_notListed ht'
    exact ((ownerInv_of_run h).hand t' name' id' x hhand).2.2 k ⟨t, name, hmem⟩
  have hname := ((tableInv_of_run h).entry name _ hget).2
  obtain ⟨pre', post', htr', hnotOwned, hstream⟩ :=
    stream_of_subscriber h (subscriberOf_of_subscribes hsub)
  rw [hname] at hstream
  -- The proxy was in the list before the subscribe returned.
  have hprefix : pre' <+: pre := by
    have hboth : pre' ++ post' = pre ++ .subscribed t k x name :: post := htr'.symm.trans htr
    rcases List.append_eq_append_iff.mp hboth with ⟨mid, hpre, -⟩ | ⟨mid, hpre', hmid⟩
    · exact ⟨mid, hpre.symm⟩
    · cases mid with
      | nil => exact ⟨[], by simpa using hpre'⟩
      | cons e mid =>
          obtain ⟨rfl, -⟩ : .subscribed t k x name = e ∧ post = mid ++ post' := by simpa using hmid
          exact absurd ⟨t, name, by simp [hpre']⟩ (hnotOwned k)
  obtain ⟨mid, rfl⟩ := hprefix
  have hpost : post' = mid ++ .subscribed t k x name :: post := by
    have hboth : pre' ++ post' = pre' ++ (mid ++ .subscribed t k x name :: post) := by
      rw [← htr', htr, List.append_assoc]
    exact List.append_cancel_left hboth
  refine ⟨fannedOut mid name, ?_, ?_⟩
  · rw [fannedOut, fannedOut, List.filterMap_append]
    exact List.suffix_append _ _
  · rw [hstream, hpost, fannedOut, List.filterMap_append]
    rfl

/-- A subscription has received one message, and the task of a second one has locked the channel. -/
theorem stream_of_subscription_two_messages :
    ∃ (tr : List (Event 1)) (s : State 1) (m₁ m₂ : Message) (early : List Message),
      (machine 1 1 (by decide)).RunIf AllocationsSucceed tr s ∧ handedOut tr 0 = [m₁] ∧
      (s.shared.proxy 0).inbox = [] ∧ early <:+ [] ∧
      handedOut tr 0 ++ ((s.shared.proxy 0).inbox ++ stillComing s 0) = early ++ [m₁, m₂] := by
  let name : CString := ⟨[99], by decide⟩
  let arg₁ : PublisherTaskArg := ⟨1, name, ⟨[49], by decide⟩, 0⟩
  let arg₂ : PublisherTaskArg := ⟨2, name, ⟨[50], by decide⟩, 1⟩
  let post : List (Event 1) :=
    [.publishCall 1 arg₁, .pool (.submitCall 1 arg₁), .pool (.enqueued ⟨0, arg₁⟩),
      .pool (.submitted 1 ⟨0, arg₁⟩), .pool (.called 0 ⟨0, arg₁⟩), .fanout (.dispatcher 0) 0 arg₁,
      .put (.dispatcher 0) 0 arg₁.message, .pool (.returned 0 ⟨0, arg₁⟩),
      .got (.client 0) 0 0 (some arg₁.message), .publishCall 1 arg₂, .pool (.submitCall 1 arg₂),
      .pool (.enqueued ⟨1, arg₂⟩), .pool (.submitted 1 ⟨1, arg₂⟩), .pool (.called 0 ⟨1, arg₂⟩),
      .fanout (.dispatcher 0) 0 arg₂]
  obtain ⟨tr, s, hrun, htest⟩ := Machine.runIf_of_exec (M := machine 1 1 (by decide))
    (K := AllocationsSucceed)
    (subscribeSchedule 0 name true ++ publishSchedule 1 name arg₁.content ++ taskSchedule 0 1
      ++ .thread (.client 0) (.callReceive 0 false)
        :: List.replicate 9 (.thread (.client 0) .go)
      ++ publishSchedule 1 name arg₂.content ++ (taskSchedule 0 1).take 12)
    (fun tr s => decide (tr = [.subscribeCall (.client 0) 1 name] ++
      .subscribed (.client 0) 0 0 name :: post ∧ s.shared.nextSubscribe = 1 ∧
      (s.shared.proxy 0).inbox = [])) (by decide +kernel)
  obtain ⟨htr, hsubscribe, hinbox⟩ := of_decide_eq_true htest
  obtain ⟨early, hearly, hstream⟩ := stream_of_subscription hrun (by rw [hsubscribe]; decide) htr
    (by rw [htr]; intro t'; simp [post])
  refine ⟨tr, s, arg₁.message, arg₂.message, early, hrun, ?_, hinbox, hearly, hstream⟩
  rw [htr]
  decide +kernel

end

end Miez.Proofs.MessageBroker
