import Miez.Proofs.MessageBroker.Failures
import Miez.Proofs.MessageBroker.Fanout

/-!
# `Miez.Proofs.MessageBroker.Receive`: what a receive hands out

`subscription_receive` and `subscription_try_receive` test the inbox in one critical section and
take a message out of it in another. `ReceiveStep` lists their steps. In every run the messages
handed out of an inbox, followed by the messages still in it, are the messages put into it
(`handedOut_append_inbox`), so no message is handed out twice.

Between the two critical sections another call can take the message that the first one has
seen. `EnoughMessages` is the condition under which this does no harm: a call that finds the
inbox non-empty finds more messages there than there are calls that have seen one and have not
taken it yet. Then every successful receive yields a message (`receive_yields_message`).
-/

set_option autoImplicit false

namespace Miez.Proofs.MessageBroker

open Miez.Lib
open Miez.MessageBroker
open Miez.ThreadPool (Tid)

section
variable {n : Nat} {capacity : UInt64} {hcap : capacity ≠ 0}

/-! ### The steps of a receive -/

/-- The steps of `subscription_receive` and `subscription_try_receive`. -/
inductive ReceiveStep (t : Tid n) (k : Nat) (tryReceive : Bool) (sh : Shared n) :
    ReceivePc → Shared n → Pc → Option (Event n) → Prop where
  | test (r r' : ReceivePc) (hr : (r = .testActive ∧ r' = .testProxy) ∨
        (r = .testProxy ∧ r' = .testProxyActive) ∨ (r = .testProxyActive ∧ r' = .load)) :
      ReceiveStep t k tryReceive sh r sh (.receive k tryReceive r') none
  | failed (r : ReceivePc) (hr : r = .testActive ∨ r = .testProxy ∨ r = .testProxyActive ∨
        ∃ x, r = .tryEmpty x) :
      ReceiveStep t k tryReceive sh r sh .idle (some (.receiveFailed t k))
  | load (x : Nat) (hx : (sh.subscription k).proxy = some x) :
      ReceiveStep t k tryReceive sh .load sh
        (.receive k tryReceive (if tryReceive then .tryEmpty x else .lock x)) none
  | lock (r : ReceivePc) (x : Nat) (hr : r = .lock x ∨ r = .parked x)
      (hfree : (sh.proxy x).inboxMutex = none) :
      ReceiveStep t k tryReceive sh r
        (sh.setProxy x { sh.proxy x with inboxMutex := some t })
        (.receive k tryReceive (.testEmpty x)) none
  | testEmpty (x : Nat) (hempty : (sh.proxy x).inbox = []) :
      ReceiveStep t k tryReceive sh (.testEmpty x) sh
        (.receive k tryReceive (.testActiveLoop x)) none
  | testNonempty (x : Nat) (hsome : (sh.proxy x).inbox ≠ []) :
      ReceiveStep t k tryReceive sh (.testEmpty x) sh
        (.receive k tryReceive (.testActiveExit x)) none
  | loopActive (x : Nat) :
      ReceiveStep t k tryReceive sh (.testActiveLoop x) sh
        (.receive k tryReceive (.condWait x)) none
  | loopInactive (x : Nat) (hactive : (sh.proxy x).active = false) :
      ReceiveStep t k tryReceive sh (.testActiveLoop x) sh
        (.receive k tryReceive (.testActiveExit x)) none
  | condWait (x : Nat) :
      ReceiveStep t k tryReceive sh (.condWait x)
        (sh.setProxy x { sh.proxy x with
          inboxMutex := none, inboxCond := insert t (sh.proxy x).inboxCond })
        (.receive k tryReceive (.parked x)) none
  | wakeup (x : Nat) :
      ReceiveStep t k tryReceive sh (.parked x)
        (sh.setProxy x { sh.proxy x with inboxCond := (sh.proxy x).inboxCond.erase t })
        (.receive k tryReceive (.parked x)) none
  | exitActive (x : Nat) (hactive : (sh.proxy x).active = true) :
      ReceiveStep t k tryReceive sh (.testActiveExit x) sh
        (.receive k tryReceive (.unlock x)) none
  | exitInactive (x : Nat) :
      ReceiveStep t k tryReceive sh (.testActiveExit x) sh
        (.receive k tryReceive (.unlockInactive x)) none
  | unlockInactive (x : Nat) :
      ReceiveStep t k tryReceive sh (.unlockInactive x) (sh.unlockInbox x) .idle
        (some (.receiveFailed t k))
  | unlock (x : Nat) :
      ReceiveStep t k tryReceive sh (.unlock x) (sh.unlockInbox x)
        (.receive k tryReceive (.dequeue x)) none
  | tryNonempty (x : Nat) (hsome : (sh.proxy x).inbox ≠ []) :
      ReceiveStep t k tryReceive sh (.tryEmpty x) sh
        (.receive k tryReceive (.dequeue x)) none
  | got (x : Nat) :
      ReceiveStep t k tryReceive sh (.dequeue x)
        (sh.setProxy x { sh.proxy x with inbox := (sh.proxy x).inbox.dequeue.2 }) .idle
        (some (.got t k x (sh.proxy x).inbox.dequeue.1))

/-- `subscription_receive` and `subscription_try_receive` take the steps of `ReceiveStep`. -/
theorem subscriptionReceive_receiveStep {t : Tid n} {k : Nat} {tryReceive : Bool}
    {sh sh' : Shared n} {r : ReceivePc} {move : Move n} {pc' : Pc} {e : Option (Event n)}
    (h : subscriptionReceive t k tryReceive sh r move = some (.step sh' pc' e)) :
    move = .go ∧ ReceiveStep t k tryReceive sh r sh' pc' e := by
  obtain rfl : move = .go := by
    cases r <;> cases move <;> simp_all [subscriptionReceive]
  refine ⟨rfl, ?_⟩
  cases r with
  | testActive =>
      simp only [subscriptionReceive, derefSubscription_eq_step, Option.some.injEq] at h
      obtain ⟨-, h⟩ := h
      split_ifs at h <;> obtain ⟨rfl, rfl, rfl⟩ := Outcome.step.inj h
      · exact .test _ _ (Or.inl ⟨rfl, rfl⟩)
      · exact .failed _ (Or.inl rfl)
  | testProxy =>
      simp only [subscriptionReceive, derefSubscription_eq_step, Option.some.injEq] at h
      obtain ⟨-, h⟩ := h
      split_ifs at h <;> obtain ⟨rfl, rfl, rfl⟩ := Outcome.step.inj h
      · exact .failed _ (Or.inr (Or.inl rfl))
      · exact .test _ _ (Or.inr (Or.inl ⟨rfl, rfl⟩))
  | testProxyActive =>
      simp only [subscriptionReceive, derefProxy_eq_step, Option.some.injEq] at h
      obtain ⟨-, x, -, -, h⟩ := h
      split_ifs at h <;> obtain ⟨rfl, rfl, rfl⟩ := Outcome.step.inj h
      · exact .test _ _ (Or.inr (Or.inr ⟨rfl, rfl⟩))
      · exact .failed _ (Or.inr (Or.inr (Or.inl rfl)))
  | load =>
      simp only [subscriptionReceive, derefSubscription_eq_step] at h
      obtain ⟨-, h⟩ := h
      cases hproxy : (sh.subscription k).proxy with
      | none => simp [hproxy] at h
      | some x =>
          simp only [hproxy, Option.some.injEq, Outcome.step.injEq] at h
          obtain ⟨rfl, rfl, rfl⟩ := h
          exact .load x hproxy
  | lock x =>
      simp only [subscriptionReceive, deref_eq_step, Shared.lockInbox, Option.map_map,
        Option.map_eq_some_iff, lockMutex_eq_some, Function.comp_apply, Outcome.step.injEq] at h
      obtain ⟨-, m, ⟨hfree, rfl⟩, rfl, rfl, rfl⟩ := h
      exact .lock _ x (Or.inl rfl) hfree
  | testEmpty x =>
      simp only [subscriptionReceive, deref_eq_step, Option.some.injEq, Outcome.step.injEq] at h
      obtain ⟨-, rfl, rfl, rfl⟩ := h
      cases hin : (sh.proxy x).inbox with
      | nil => exact .testEmpty x hin
      | cons m ms => exact .testNonempty x (by rw [hin]; exact List.cons_ne_nil m ms)
  | testActiveLoop x =>
      simp only [subscriptionReceive, deref_eq_step, Option.some.injEq, Outcome.step.injEq] at h
      obtain ⟨-, rfl, rfl, rfl⟩ := h
      cases hactive : (sh.proxy x).active with
      | true => exact .loopActive x
      | false => exact .loopInactive x hactive
  | condWait x =>
      simp only [subscriptionReceive, deref_eq_step, Option.some.injEq, Outcome.step.injEq] at h
      obtain ⟨-, rfl, rfl, rfl⟩ := h
      exact .condWait x
  | parked x =>
      simp only [subscriptionReceive, deref_eq_step] at h
      obtain ⟨-, h⟩ := h
      by_cases hin : t ∈ (sh.proxy x).inboxCond
      · simp only [if_pos hin, Option.some.injEq, Outcome.step.injEq] at h
        obtain ⟨rfl, rfl, rfl⟩ := h
        exact .wakeup x
      · simp only [if_neg hin, Shared.lockInbox, Option.map_map, Option.map_eq_some_iff,
          lockMutex_eq_some, Function.comp_apply, Outcome.step.injEq] at h
        obtain ⟨m, ⟨hfree, rfl⟩, rfl, rfl, rfl⟩ := h
        exact .lock _ x (Or.inr rfl) hfree
  | testActiveExit x =>
      simp only [subscriptionReceive, deref_eq_step, Option.some.injEq, Outcome.step.injEq] at h
      obtain ⟨-, rfl, rfl, rfl⟩ := h
      cases hactive : (sh.proxy x).active with
      | true => exact .exitActive x hactive
      | false => exact .exitInactive x
  | unlockInactive x =>
      simp only [subscriptionReceive, deref_eq_step, Option.some.injEq, Outcome.step.injEq] at h
      obtain ⟨-, rfl, rfl, rfl⟩ := h
      exact .unlockInactive x
  | unlock x =>
      simp only [subscriptionReceive, deref_eq_step, Option.some.injEq, Outcome.step.injEq] at h
      obtain ⟨-, rfl, rfl, rfl⟩ := h
      exact .unlock x
  | tryEmpty x =>
      simp only [subscriptionReceive, deref_eq_step, Option.some.injEq] at h
      obtain ⟨-, h⟩ := h
      cases hin : (sh.proxy x).inbox with
      | nil =>
          obtain ⟨rfl, rfl, rfl⟩ := Outcome.step.inj (by simpa [hin] using h)
          exact .failed _ (Or.inr (Or.inr (Or.inr ⟨x, rfl⟩)))
      | cons m ms =>
          obtain ⟨rfl, rfl, rfl⟩ : sh = sh' ∧ _ = pc' ∧ none = e := by simpa [hin] using h
          exact .tryNonempty x (by rw [hin]; exact List.cons_ne_nil m ms)
  | dequeue x =>
      simp only [subscriptionReceive, deref_eq_step, Option.some.injEq, Outcome.step.injEq] at h
      obtain ⟨-, rfl, rfl, rfl⟩ := h
      exact .got x

/-! ### Pointers to proxies -/

/-- The proxy that a receive has a pointer to. -/
def receiveProxy : ReceivePc → Option Nat
  | .lock x | .testEmpty x | .testActiveLoop x | .condWait x | .parked x | .testActiveExit x
  | .unlockInactive x | .unlock x | .tryEmpty x | .dequeue x => some x
  | _ => none

/-- The proxy that the thread has a pointer to. -/
def proxyOf : Pc → Option Nat
  | .publisherTask _ pc =>
      match pc with
      | .testActive _ _ x | .enqueue _ _ x | .lockInbox _ _ x | .signal _ _ x
      | .unlockInbox _ _ x => some x
      | _ => none
  | .subscribe _ _ pc =>
      match pc with
      | .lockChannel _ x | .insertLast _ x | .unlockChannel _ x | .newSubscription x
      | .unlockFailed _ x | .freeProxy x _ => some x
      | _ => none
  | .unsubscribe _ _ (.freeProxy _ _ x _) => some x
  | .receive _ _ r => receiveProxy r
  | _ => none

/-- The thread is inside a receive. -/
def inReceive : Pc → Bool
  | .receive _ _ _ => true
  | _ => false

/-- Every pointer of the objects leads to a proxy that has been made. -/
structure KnownProxies (sh : Shared n) : Prop where
  list : ∀ ch, ∀ x ∈ (sh.channel ch).subscriberProxies, x < sh.nextProxy
  pointer : ∀ k x, (sh.subscription k).proxy = some x → x < sh.nextProxy

/-- The pointers after a step of a thread. -/
structure PointerStep (sh : Shared n) (sh' : Shared n) (pc' : Pc) : Prop where
  known : KnownProxies sh'
  pc : ∀ x, proxyOf pc' = some x → x < sh'.nextProxy
  next : sh.nextProxy ≤ sh'.nextProxy

section
variable {t : Tid n} {sh sh' : Shared n} {pc pc' : Pc} {e : Option (Event n)}

/-- A step that leaves the lists, the subscriptions and the number of proxies alone. -/
theorem KnownProxies.same (hinv : KnownProxies sh)
    (hlist : ∀ ch, (sh'.channel ch).subscriberProxies = (sh.channel ch).subscriberProxies)
    (hsub : sh'.subscription = sh.subscription) (hnext : sh'.nextProxy = sh.nextProxy)
    (hpc : ∀ x, proxyOf pc' = some x → x < sh.nextProxy) : PointerStep sh sh' pc' := by
  refine ⟨⟨?_, ?_⟩, ?_, hnext.ge⟩
  · intro ch x hx
    rw [hlist ch] at hx
    rw [hnext]
    exact hinv.list ch x hx
  · intro k x hx
    rw [hsub] at hx
    rw [hnext]
    exact hinv.pointer k x hx
  · rwa [hnext]

/-- A write to a channel whose new list has only known proxies. -/
theorem KnownProxies.setChannel (hinv : KnownProxies sh) {ch : Nat} {c : Channel n}
    (hc : ∀ x ∈ c.subscriberProxies, x < sh.nextProxy)
    (hpc : ∀ x, proxyOf pc' = some x → x < sh.nextProxy) :
    PointerStep sh (sh.setChannel ch c) pc' := by
  refine ⟨⟨?_, hinv.pointer⟩, hpc, le_rfl⟩
  intro ch' x hx
  rw [setChannel_channel] at hx
  by_cases hch : ch' = ch
  · rw [if_pos hch] at hx
    exact hc x hx
  · rw [if_neg hch] at hx
    exact hinv.list ch' x hx

/-- A write to a subscription whose new pointer leads to a known proxy. -/
theorem KnownProxies.setSubscription (hinv : KnownProxies sh) {k : Nat} {sub : Subscription}
    (hsub : ∀ x, sub.proxy = some x → x < sh.nextProxy)
    (hpc : ∀ x, proxyOf pc' = some x → x < sh.nextProxy) :
    PointerStep sh (sh.setSubscription k sub) pc' := by
  refine ⟨⟨hinv.list, ?_⟩, hpc, le_rfl⟩
  intro k' x hx
  by_cases hk : k' = k
  · subst hk
    exact hsub x (by simpa [Shared.setSubscription] using hx)
  · exact hinv.pointer k' x (by simpa [Shared.setSubscription, Function.update_of_ne hk] using hx)

/-- The get-or-create leaves the pointers alone. -/
theorem GetChannelStep.pointerStep {name : CString} {g : GetChannelPc} {r : GetChannelResult}
    (h : GetChannelStep t name sh g sh' r) (hinv : KnownProxies sh)
    (hpc : proxyOf pc' = none) : PointerStep sh sh' pc' := by
  have hnone : ∀ x, proxyOf pc' = some x → x < sh.nextProxy := by
    intro x hx
    rw [hpc] at hx
    cases hx
  cases h with
  | new =>
      have hset : PointerStep sh (sh.setChannel sh.nextChannel ⟨name, [], none, false⟩) pc' :=
        hinv.setChannel (by simp) hnone
      exact ⟨⟨hset.known.list, hset.known.pointer⟩, hset.pc, hset.next⟩
  | _ => exact hinv.same (fun _ => rfl) rfl rfl hnone

/-- The failing get-or-create leaves the pointers alone. -/
theorem GetChannelFail.pointerStep {name : CString} {freeFirst : Bool} {g : GetChannelPc}
    {r : GetChannelResult} (h : GetChannelFail name freeFirst sh g sh' r)
    (hinv : KnownProxies sh) (hpc : proxyOf pc' = none) : PointerStep sh sh' pc' := by
  have hnone : ∀ x, proxyOf pc' = some x → x < sh.nextProxy := by
    intro x hx
    rw [hpc] at hx
    cases hx
  cases h with
  | insertNode ch =>
      have hset : PointerStep sh
          (sh.setChannel ch { sh.channel ch with released := true }) pc' :=
        hinv.setChannel (hinv.list ch) hnone
      exact ⟨⟨hset.known.list, hset.known.pointer⟩, hset.pc, hset.next⟩
  | freeUnlock ch hlive => exact hinv.setChannel (hinv.list ch) hnone
  | free ch hlive => exact hinv.setChannel (hinv.list ch) hnone
  | _ => exact hinv.same (fun _ => rfl) rfl rfl hnone

/-- A receive takes its pointer from its subscription. -/
theorem ReceiveStep.pointerStep {k : Nat} {tryReceive : Bool} {r : ReceivePc}
    (h : ReceiveStep t k tryReceive sh r sh' pc' e) (hinv : KnownProxies sh)
    (hpc : ∀ x, receiveProxy r = some x → x < sh.nextProxy) : PointerStep sh sh' pc' := by
  have hnone : ∀ x, (none : Option Nat) = some x → x < sh.nextProxy := by
    intro x hx
    cases hx
  cases h with
  | test r r' hr =>
      refine hinv.same (fun _ => rfl) rfl rfl ?_
      rcases hr with ⟨-, rfl⟩ | ⟨-, rfl⟩ | ⟨-, rfl⟩ <;> exact hnone
  | failed r hr => exact hinv.same (fun _ => rfl) rfl rfl hnone
  | load x hx =>
      refine hinv.same (fun _ => rfl) rfl rfl ?_
      intro y hy
      obtain rfl : x = y := by cases tryReceive <;> simpa [proxyOf, receiveProxy] using hy
      exact hinv.pointer k x hx
  | lock r x hr hfree =>
      refine hinv.same (fun _ => rfl) rfl rfl ?_
      rcases hr with rfl | rfl <;> exact hpc
  | unlockInactive x => exact hinv.same (fun _ => rfl) rfl rfl hnone
  | got x => exact hinv.same (fun _ => rfl) rfl rfl hnone
  | _ => exact hinv.same (fun _ => rfl) rfl rfl hpc

/-- A step without a failing allocation follows and stores known pointers only. -/
theorem ThreadStep.pointerStep (h : ThreadStep t sh pc sh' pc' e) (hinv : KnownProxies sh)
    (hpc : ∀ x, proxyOf pc = some x → x < sh.nextProxy) (hrec : inReceive pc = false) :
    PointerStep sh sh' pc' := by
  have hnone : ∀ x, (none : Option Nat) = some x → x < sh.nextProxy := by
    intro x hx
    cases hx
  cases h with
  | taskMore hg => exact hg.pointerStep hinv rfl
  | taskFound hg => exact hg.pointerStep hinv rfl
  | subscribeMore hg => exact hg.pointerStep hinv rfl
  | subscribeFound hg => exact hg.pointerStep hinv rfl
  | fanout ch hfree => exact hinv.setChannel (hinv.list ch) hnone
  | taskUnlock ch => exact hinv.setChannel (hinv.list ch) hnone
  | nextActive ch i x hx =>
      refine hinv.same (fun _ => rfl) rfl rfl ?_
      intro y hy
      obtain rfl : x = y := by simpa [proxyOf] using hy
      exact hinv.list ch x (List.mem_of_getElem? hx)
  | testInactive ch i x hactive => exact hinv.same (fun _ => rfl) rfl rfl hnone
  | taskUnlockInbox ch i x => exact hinv.same (fun _ => rfl) rfl rfl hnone
  | @newProxy name id ch =>
      have hlt : ∀ x, x < sh.nextProxy → x < (sh.newProxy id ch).nextProxy :=
        fun x hx => Nat.lt_succ_of_lt hx
      refine ⟨⟨?_, ?_⟩, ?_, Nat.le_succ _⟩
      · intro ch' x hx
        exact hlt x (hinv.list ch' x hx)
      · intro k x hx
        exact hlt x (hinv.pointer k x hx)
      · intro x hx
        obtain rfl : sh.nextProxy = x := by simpa [proxyOf] using hx
        exact Nat.lt_succ_self _
  | subscribeLock ch x hfree => exact hinv.setChannel (hinv.list ch) hpc
  | insertLast ch x =>
      refine hinv.setChannel ?_ hpc
      intro y hy
      rcases List.mem_append.mp hy with hy | hy
      · exact hinv.list ch y hy
      · rw [List.mem_singleton.mp hy]
        exact hpc x rfl
  | subscribeUnlock ch x => exact hinv.setChannel (hinv.list ch) hpc
  | @newSubscription name id x =>
      have hset : PointerStep sh
          (sh.setSubscription sh.nextSubscription ⟨id, name, some x, true, false⟩) .idle := by
        refine hinv.setSubscription ?_ hnone
        intro y hy
        rw [← Option.some.inj hy]
        exact hpc x rfl
      exact ⟨⟨hset.known.list, hset.known.pointer⟩, hset.pc, hset.next⟩
  | unsubscribeTest u u' hu =>
      refine hinv.same (fun _ => rfl) rfl rfl ?_
      rcases hu with ⟨rfl, rfl⟩ | ⟨rfl, rfl | rfl⟩ <;> exact hnone
  | unsubscribeInactive hret =>
      refine hinv.same (fun _ => rfl) rfl rfl ?_
      rcases hret with ⟨rfl, -⟩ | ⟨rfl, -⟩ <;> exact hnone
  | unsubscribeInbox x p u u' hp hinbox hu =>
      refine hinv.same (fun _ => rfl) rfl rfl ?_
      rcases hu with ⟨rfl, rfl⟩ | ⟨rfl, rfl⟩ | ⟨rfl, rfl⟩ <;> exact hnone
  | unsubscribeLockChannel ch hfree => exact hinv.setChannel (hinv.list ch) hnone
  | searchHit ch i x hx hid =>
      refine hinv.same (fun _ => rfl) rfl rfl ?_
      intro y hy
      obtain rfl : x = y := by simpa [proxyOf] using hy
      exact hinv.list ch x (List.mem_of_getElem? hx)
  | freeRelease ch i x => exact hinv.same (fun _ => rfl) rfl rfl hnone
  | unlink ch i =>
      refine hinv.setChannel ?_ hnone
      intro y hy
      exact hinv.list ch y ((List.eraseIdx_sublist _ _).subset hy)
  | unsubscribeUnlockChannel ch => exact hinv.setChannel (hinv.list ch) hnone
  | clearActive => exact hinv.setSubscription (fun x hx => hinv.pointer _ x hx) hnone
  | clearProxy hret =>
      refine hinv.setSubscription (fun x hx => by cases hx) ?_
      rcases hret with ⟨rfl, -⟩ | ⟨rfl, -⟩ <;> exact hnone
  | release k => exact hinv.setSubscription (fun x hx => hinv.pointer _ x hx) hnone
  | receiveRead hret => cases hrec
  | receiveInbox x p hp hinbox hret => cases hrec
  | got x => cases hrec
  | pendingRead hret =>
      refine hinv.same (fun _ => rfl) rfl rfl ?_
      rcases hret with ⟨rfl, -⟩ | ⟨rfl, -⟩ <;> exact hnone
  | _ => exact hinv.same (fun _ => rfl) rfl rfl hpc

/-- A step of a failing call follows and stores known pointers only. -/
theorem FailStep.pointerStep (h : FailStep t sh pc sh' pc' e) (hinv : KnownProxies sh)
    (hpc : ∀ x, proxyOf pc = some x → x < sh.nextProxy) : PointerStep sh sh' pc' := by
  have hnone : ∀ x, (none : Option Nat) = some x → x < sh.nextProxy := by
    intro x hx
    cases hx
  cases h with
  | taskMore hg => exact hg.pointerStep hinv rfl
  | taskFailed hg => exact hg.pointerStep hinv rfl
  | subscribeMore hg => exact hg.pointerStep hinv rfl
  | subscribeFailed hg => exact hg.pointerStep hinv rfl
  | unlockFailed ch x => exact hinv.setChannel (hinv.list ch) hpc
  | _ => first
    | exact hinv.same (fun _ => rfl) rfl rfl hnone
    | exact hinv.same (fun _ => rfl) rfl rfl hpc

end

/-! ### What is put into an inbox and what is handed out of it -/

/-- What a successful receive on the proxy `x` hands out. -/
def gotOf (x : Nat) : Event n → Option (Option Message)
  | .got _ _ y msg => if y = x then some msg else none
  | _ => none

/-- The messages handed out of the inbox of the proxy `x`, in the order of the calls. -/
def handedOut (tr : List (Event n)) (x : Nat) : List Message :=
  tr.filterMap fun e => (gotOf x e).join

/-- What one step of a thread does to the inboxes. -/
inductive InboxStep (t : Tid n) (sh : Shared n) (pc : Pc) (sh' : Shared n)
    (e : Option (Event n)) : Prop where
  | keep (hinbox : ∀ x, (sh'.proxy x).inbox = (sh.proxy x).inbox)
      (hput : ∀ x, e.bind (putOf x) = none) (hgot : ∀ x, e.bind (gotOf x) = none)
  | put (x : Nat) (msg : Message) (hpc : proxyOf pc = some x) (he : e = some (.put t x msg))
      (hinbox : ∀ y, (sh'.proxy y).inbox
        = if y = x then (sh.proxy x).inbox ++ [msg] else (sh.proxy y).inbox)
  | got (k x : Nat) (tryReceive : Bool) (hpc : pc = .receive k tryReceive (.dequeue x))
      (he : e = some (.got t k x (sh.proxy x).inbox.dequeue.1))
      (hinbox : ∀ y, (sh'.proxy y).inbox
        = if y = x then (sh.proxy x).inbox.dequeue.2 else (sh.proxy y).inbox)

section
variable {t : Tid n} {sh sh' : Shared n} {pc pc' : Pc} {e : Option (Event n)}

/-- The inboxes after a write to a proxy. -/
theorem setProxy_inbox (sh : Shared n) (x : Nat) (p : SubscriberProxy n) (y : Nat) :
    ((sh.setProxy x p).proxy y).inbox = if y = x then p.inbox else (sh.proxy y).inbox := by
  rw [setProxy_proxy]
  by_cases hy : y = x
  · rw [if_pos hy, if_pos hy]
  · rw [if_neg hy, if_neg hy]

/-- A write to a proxy that leaves its inbox alone leaves all inboxes alone. -/
theorem setProxy_inbox_same {x : Nat} {p : SubscriberProxy n}
    (hp : p.inbox = (sh.proxy x).inbox) (y : Nat) :
    ((sh.setProxy x p).proxy y).inbox = (sh.proxy y).inbox := by
  rw [setProxy_inbox]
  by_cases hy : y = x
  · rw [if_pos hy, hp, hy]
  · rw [if_neg hy]

/-- A step without a failing allocation is an `InboxStep`. A new proxy has an empty inbox, as it
had before it existed. -/
theorem ThreadStep.inboxStep (h : ThreadStep t sh pc sh' pc' e)
    (hfresh : (sh.proxy sh.nextProxy).inbox = []) : InboxStep t sh pc sh' e := by
  have hnone : ∀ x, (none : Option (Event n)).bind (putOf x) = none := fun _ => rfl
  have hnone' : ∀ x, (none : Option (Event n)).bind (gotOf x) = none := fun _ => rfl
  cases h with
  | @put arg ch i x => exact .put x arg.message rfl rfl (setProxy_inbox sh x _)
  | got x => exact .got _ x _ rfl rfl (setProxy_inbox sh x _)
  | newProxy ch => exact .keep (setProxy_inbox_same hfresh.symm) hnone hnone'
  | taskMore hg => exact .keep (fun x => by rw [hg.proxy.1]) hnone hnone'
  | taskFound hg => exact .keep (fun x => by rw [hg.proxy.1]) hnone hnone'
  | subscribeMore hg => exact .keep (fun x => by rw [hg.proxy.1]) hnone hnone'
  | subscribeFound hg => exact .keep (fun x => by rw [hg.proxy.1]) hnone hnone'
  | taskLockInbox ch i x hfree => exact .keep (setProxy_inbox_same (by rfl)) hnone hnone'
  | taskSignal ch i x waiting => exact .keep (setProxy_inbox_same (by rfl)) hnone hnone'
  | taskUnlockInbox ch i x => exact .keep (setProxy_inbox_same (by rfl)) hnone hnone'
  | deactivate x hx => exact .keep (setProxy_inbox_same (by rfl)) hnone hnone'
  | unsubscribeInbox x p u u' hp hinbox hu =>
      exact .keep (setProxy_inbox_same hinbox) hnone hnone'
  | freeDeactivate ch i x => exact .keep (setProxy_inbox_same (by rfl)) hnone hnone'
  | freeInbox ch i x p f f' hp hinbox hf => exact .keep (setProxy_inbox_same hinbox) hnone hnone'
  | freeRelease ch i x => exact .keep (setProxy_inbox_same (by rfl)) hnone hnone'
  | unsubscribeInactive hret =>
      rcases hret with ⟨-, rfl⟩ | ⟨-, rfl⟩ <;>
        exact .keep (fun _ => rfl) (fun _ => rfl) fun _ => rfl
  | clearProxy hret =>
      rcases hret with ⟨-, rfl⟩ | ⟨-, rfl⟩ <;>
        exact .keep (fun _ => rfl) (fun _ => rfl) fun _ => rfl
  | receiveRead hret =>
      rcases hret with ⟨-, -, rfl⟩ | ⟨-, rfl⟩ <;>
        exact .keep (fun _ => rfl) (fun _ => rfl) fun _ => rfl
  | receiveInbox x p hp hinbox hret =>
      rcases hret with ⟨-, -, rfl⟩ | ⟨-, rfl⟩ <;>
        exact .keep (setProxy_inbox_same hinbox) (fun _ => rfl) fun _ => rfl
  | pendingRead hret =>
      rcases hret with ⟨-, rfl⟩ | ⟨-, count, rfl⟩ <;>
        exact .keep (fun _ => rfl) (fun _ => rfl) fun _ => rfl
  | _ => exact .keep (fun _ => rfl) (fun _ => rfl) fun _ => rfl

/-- A step of a failing call leaves the inboxes alone. -/
theorem FailStep.inboxStep (h : FailStep t sh pc sh' pc' e) : InboxStep t sh pc sh' e := by
  have hnone : ∀ x, (none : Option (Event n)).bind (putOf x) = none := fun _ => rfl
  have hnone' : ∀ x, (none : Option (Event n)).bind (gotOf x) = none := fun _ => rfl
  cases h with
  | taskMore hg => exact .keep (fun x => by rw [hg.proxy.1]) hnone hnone'
  | taskFailed hg => exact .keep (fun x => by rw [hg.proxy.1]) hnone hnone'
  | subscribeMore hg => exact .keep (fun x => by rw [hg.proxy.1]) hnone hnone'
  | subscribeFailed hg => exact .keep (fun x => by rw [hg.proxy.1]) (fun _ => rfl) fun _ => rfl
  | freeDeactivate x => exact .keep (setProxy_inbox_same (by rfl)) hnone hnone'
  | freeInbox x p f f' hp hinbox hf => exact .keep (setProxy_inbox_same hinbox) hnone hnone'
  | freeRelease x => exact .keep (setProxy_inbox_same (by rfl)) (fun _ => rfl) fun _ => rfl
  | _ => exact .keep (fun _ => rfl) (fun _ => rfl) fun _ => rfl

/-- What has been handed out after a step that hands nothing out of this inbox. -/
theorem handedOut_append_of_none {tr : List (Event n)} {x : Nat}
    (he : e.bind (gotOf x) = none) : handedOut (tr ++ e.toList) x = handedOut tr x := by
  refine filterMap_append_of_none ?_ tr
  cases e with
  | none => rfl
  | some ev =>
      show (gotOf x ev).join = none
      rw [show gotOf x ev = none from he]
      rfl

/-- The messages put into an inbox, after a step: an `InboxStep` keeps the balance of what was
put in, what was handed out and what is still there. -/
theorem InboxStep.balance (h : InboxStep t sh pc sh' e) {tr : List (Event n)} {x : Nat}
    (hinv : handedOut tr x ++ (sh.proxy x).inbox = puts tr x) :
    handedOut (tr ++ e.toList) x ++ (sh'.proxy x).inbox = puts (tr ++ e.toList) x := by
  cases h with
  | keep hinbox hput hgot =>
      rw [handedOut_append_of_none (hgot x), puts_append_of_none (hput x), hinbox x]
      exact hinv
  | put y msg hpc he hinbox =>
      subst he
      rw [handedOut_append_of_none rfl, puts_append_put, hinbox x]
      by_cases hxy : x = y
      · subst hxy
        rw [if_pos rfl, if_pos rfl, ← List.append_assoc, hinv]
      · rw [if_neg hxy, if_neg (Ne.symm hxy)]
        exact hinv
  | got k y tryReceive hpc he hinbox =>
      subst he
      rw [puts_append_of_none rfl, hinbox x]
      by_cases hxy : x = y
      · subst hxy
        rw [if_pos rfl]
        cases hin : (sh.proxy x).inbox with
        | nil =>
            rw [handedOut, filterMap_append_of_none (by simp [gotOf, GenericQueueSyn.dequeue])]
            rw [hin] at hinv
            exact hinv
        | cons m ms =>
            rw [hin] at hinv
            have hout : handedOut (tr ++ [.got t k x (some m)]) x = handedOut tr x ++ [m] := by
              simp [handedOut, gotOf]
            show handedOut (tr ++ [.got t k x (some m)]) x ++ ms = puts tr x
            rw [hout, List.append_assoc]
            exact hinv
      · rw [if_neg hxy, handedOut_append_of_none]
        · exact hinv
        · simp [gotOf, Ne.symm hxy]

end

/-- The inboxes in any run, with or without failing allocations. -/
structure InboxInv (tr : List (Event n)) (s : State n) : Prop where
  known : KnownProxies s.shared
  pc : ∀ t x, proxyOf (s.pc t) = some x → x < s.shared.nextProxy
  fresh : ∀ x, s.shared.nextProxy ≤ x → (s.shared.proxy x).inbox = []
  balance : ∀ x, handedOut tr x ++ (s.shared.proxy x).inbox = puts tr x

/-- What a step of a thread does, with or without a failing allocation. -/
theorem threadFunction_pointerStep {t : Tid n} {sh sh' : Shared n} {pc pc' : Pc} {move : Move n}
    {e : Option (Event n)} (h : threadFunction t sh pc move = some (.step sh' pc' e))
    (hinv : KnownProxies sh) (hpc : ∀ x, proxyOf pc = some x → x < sh.nextProxy) :
    PointerStep sh sh' pc' := by
  cases hrec : inReceive pc with
  | true =>
      cases pc with
      | receive k tryReceive r =>
          exact (subscriptionReceive_receiveStep h).2.pointerStep hinv hpc
      | _ => cases hrec
  | false =>
      rcases threadFunction_cases h with hstep | ⟨hstep, -⟩
      · exact hstep.pointerStep hinv hpc hrec
      · exact hstep.pointerStep hinv hpc

/-- The inboxes after a step of a thread, with or without a failing allocation. -/
theorem threadFunction_inboxStep {t : Tid n} {sh sh' : Shared n} {pc pc' : Pc} {move : Move n}
    {e : Option (Event n)} (h : threadFunction t sh pc move = some (.step sh' pc' e))
    (hfresh : (sh.proxy sh.nextProxy).inbox = []) : InboxStep t sh pc sh' e := by
  rcases threadFunction_cases h with hstep | ⟨hstep, -⟩
  · exact hstep.inboxStep hfresh
  · exact hstep.inboxStep

/-- An event of the pool puts nothing into an inbox and hands nothing out. -/
theorem gotOf_map (e : Option (ThreadPool.Event n PublisherTaskArg)) (x : Nat) :
    (e.map Event.pool).bind (gotOf x) = none := by
  cases e <;> rfl

/-- A program point of `inCall` has no pointer to a proxy. -/
theorem proxyOf_of_inCall {pc : Pc} (h : inCall pc = true) : proxyOf pc = none := by
  rcases inCall_cases h with rfl | ⟨arg, rfl⟩ | rfl | ⟨arg, rfl⟩ <;> rfl

/-- `InboxInv` holds in every state of a run. -/
theorem inboxInv_of_run {K : State n → Action n → Prop} {tr : List (Event n)} {s : State n}
    (h : (machine n capacity hcap).RunIf K tr s) : InboxInv tr s := by
  refine h.induction ?_ ?_
  · refine ⟨⟨?_, ?_⟩, ?_, fun _ _ => rfl, fun _ => rfl⟩
    · intro ch x hx
      cases hx
    · intro k x hx
      cases hx
    · intro t x hx
      cases hx
  · intro tr s a s' e _ hinv _ hnext
    rcases next_cases hnext with ⟨b, pool, t, pc, e', -, -, rfl, -, hpc, rfl⟩ |
        ⟨t, move, sh, pc, rfl, hf, rfl⟩ | ⟨t, rfl, rfl⟩
    · refine ⟨hinv.known, ?_, hinv.fresh, ?_⟩
      · refine forall_update (P := fun _ pc => ∀ x, proxyOf pc = some x →
          x < s.shared.nextProxy) ?_ fun t' _ => hinv.pc t'
        intro x hx
        rw [proxyOf_of_inCall hpc] at hx
        cases hx
      · intro x
        rw [handedOut_append_of_none (gotOf_map e' x), puts_append_of_none (putOf_map e' x)]
        exact hinv.balance x
    · have hpointer := threadFunction_pointerStep hf hinv.known (hinv.pc t)
      have hinbox := threadFunction_inboxStep hf (hinv.fresh _ le_rfl)
      refine ⟨hpointer.known, ?_, ?_, fun x => hinbox.balance (hinv.balance x)⟩
      · refine forall_update (P := fun _ pc => ∀ x, proxyOf pc = some x → x < sh.nextProxy)
          hpointer.pc ?_
        intro t' _ x hx
        exact lt_of_lt_of_le (hinv.pc t' x hx) hpointer.next
      · intro x hx
        have hold : s.shared.nextProxy ≤ x := le_trans hpointer.next hx
        show (sh.proxy x).inbox = []
        cases hinbox with
        | keep hsame hput hgot =>
            rw [hsame x]
            exact hinv.fresh x hold
        | put y msg hpc he hsame =>
            have hy := hinv.pc t y hpc
            rw [hsame x, if_neg (by omega)]
            exact hinv.fresh x hold
        | got k y tryReceive hpc he hsame =>
            have hy := hinv.pc t y (by rw [hpc]; rfl)
            rw [hsame x, if_neg (by omega)]
            exact hinv.fresh x hold
    · rw [Option.toList_none, List.append_nil]
      exact ⟨hinv.known, hinv.pc, hinv.fresh, hinv.balance⟩

/-! ### Calls that have seen a message -/

/-- A program point between the test that found the inbox of `x` non-empty and the dequeue. The
test at the end of the loop sends a call away when the proxy is no longer active. -/
def hasSeen (sh : Shared n) (x : Nat) : Pc → Prop
  | .receive _ _ (.testActiveExit y) => y = x ∧ (sh.proxy x).active = true
  | .receive _ _ (.unlock y) | .receive _ _ (.dequeue y) => y = x
  | _ => False

/-- The call of the thread has found the inbox of `x` non-empty and has taken nothing yet. -/
def HasSeen (s : State n) (x : Nat) (t : Tid n) : Prop := hasSeen s.shared x (s.pc t)

/-- A call that finds the inbox non-empty finds more messages there than there are other calls
that have seen one and have not taken it yet. -/
def EnoughMessages (s : State n) : Action n → Prop
  | .thread t _ =>
      match s.pc t with
      | .receive _ _ (.testEmpty x) | .receive _ _ (.tryEmpty x) =>
          (s.shared.proxy x).inbox ≠ [] →
            ∀ S : Finset (Tid n), (∀ r ∈ S, HasSeen s x r) → S.card < (s.shared.proxy x).inbox.length
      | _ => True
  | _ => True

/-- There is a message for every call that has seen one. -/
def SeenInv (s : State n) : Prop :=
  ∀ x (S : Finset (Tid n)), (∀ r ∈ S, HasSeen s x r) → S.card ≤ (s.shared.proxy x).inbox.length

section
variable {t : Tid n} {sh sh' : Shared n} {pc pc' : Pc} {e : Option (Event n)}

/-- A write to a proxy does not make an inactive proxy active. -/
theorem setProxy_inactive {x y : Nat} {p : SubscriberProxy n}
    (hp : p.active = true → (sh.proxy y).active = true) (hx : (sh.proxy x).active = false) :
    ((sh.setProxy y p).proxy x).active = false := by
  rw [setProxy_proxy]
  by_cases hxy : x = y
  · subst hxy
    rw [if_pos rfl]
    cases hactive : p.active with
    | false => rfl
    | true => rw [hp hactive] at hx; cases hx
  · rw [if_neg hxy]
    exact hx

/-- No step without a failing allocation makes an inactive proxy active, unless it makes the
proxy. -/
theorem ThreadStep.inactive (h : ThreadStep t sh pc sh' pc' e) {x : Nat}
    (hx : ∀ id ch, sh' = sh.newProxy id ch → x ≠ sh.nextProxy)
    (hactive : (sh.proxy x).active = false) :
    (sh'.proxy x).active = false := by
  cases h with
  | @newProxy name id ch =>
      have hold : (sh.newProxy id ch).proxy x = sh.proxy x :=
        Function.update_of_ne (hx id ch rfl) _ _
      rw [hold]
      exact hactive
  | put ch i y => exact setProxy_inactive (fun h => h) hactive
  | taskLockInbox ch i y hfree => exact setProxy_inactive (fun h => h) hactive
  | taskSignal ch i y waiting => exact setProxy_inactive (fun h => h) hactive
  | taskUnlockInbox ch i y => exact setProxy_inactive (fun h => h) hactive
  | deactivate y hy => exact setProxy_inactive (fun h => by cases h) hactive
  | unsubscribeInbox y p u u' hp hinbox hu =>
      exact setProxy_inactive (fun h => hp.active ▸ h) hactive
  | freeDeactivate ch i y => exact setProxy_inactive (fun h => by cases h) hactive
  | freeInbox ch i y p f f' hp hinbox hf =>
      exact setProxy_inactive (fun h => hp.active ▸ h) hactive
  | freeRelease ch i y => exact setProxy_inactive (fun h => h) hactive
  | receiveInbox y p hp hinbox hret => exact setProxy_inactive (fun h => hp.active ▸ h) hactive
  | got y => exact setProxy_inactive (fun h => h) hactive
  | taskMore hg => rw [hg.proxy.1]; exact hactive
  | taskFound hg => rw [hg.proxy.1]; exact hactive
  | subscribeMore hg => rw [hg.proxy.1]; exact hactive
  | subscribeFound hg => rw [hg.proxy.1]; exact hactive
  | _ => exact hactive

/-- No step of a failing call makes an inactive proxy active. -/
theorem FailStep.inactive (h : FailStep t sh pc sh' pc' e) {x : Nat}
    (hactive : (sh.proxy x).active = false) : (sh'.proxy x).active = false := by
  cases h with
  | taskMore hg => rw [hg.proxy.1]; exact hactive
  | taskFailed hg => rw [hg.proxy.1]; exact hactive
  | subscribeMore hg => rw [hg.proxy.1]; exact hactive
  | subscribeFailed hg => rw [hg.proxy.1]; exact hactive
  | freeDeactivate y => exact setProxy_inactive (fun h => by cases h) hactive
  | freeInbox y p f f' hp hinbox hf => exact setProxy_inactive (fun h => hp.active ▸ h) hactive
  | freeRelease y => exact setProxy_inactive (fun h => h) hactive
  | _ => exact hactive

/-- A thread that is not inside a receive has seen no message after its step. -/
theorem ThreadStep.not_hasSeen (h : ThreadStep t sh pc sh' pc' e) (hrec : inReceive pc = false)
    (sh₁ : Shared n) (x : Nat) : ¬ hasSeen sh₁ x pc' := by
  cases h with
  | receiveRead hret => cases hrec
  | receiveInbox y p hp hinbox hret => cases hrec
  | unsubscribeInactive hret => rcases hret with ⟨rfl, -⟩ | ⟨rfl, -⟩ <;> exact fun h => h
  | clearProxy hret => rcases hret with ⟨rfl, -⟩ | ⟨rfl, -⟩ <;> exact fun h => h
  | pendingRead hret => rcases hret with ⟨rfl, -⟩ | ⟨rfl, -⟩ <;> exact fun h => h
  | _ => exact fun h => h

/-- A thread that cleans up after a failure has seen no message. -/
theorem FailStep.not_hasSeen (h : FailStep t sh pc sh' pc' e) (sh₁ : Shared n) (x : Nat) :
    ¬ hasSeen sh₁ x pc' := by
  cases h <;> exact fun h => h

/-- How a receive comes to have seen a message: it had seen it before the step, or its test has
just found the inbox non-empty. -/
theorem ReceiveStep.hasSeen {k : Nat} {tryReceive : Bool} {r : ReceivePc}
    (h : ReceiveStep t k tryReceive sh r sh' pc' e) {x : Nat} (hseen : hasSeen sh' x pc') :
    MessageBroker.hasSeen sh x (.receive k tryReceive r) ∨
    ((r = .testEmpty x ∨ r = .tryEmpty x) ∧ (sh.proxy x).inbox ≠ [] ∧ sh' = sh) := by
  cases h with
  | test r r' hr => rcases hr with ⟨-, rfl⟩ | ⟨-, rfl⟩ | ⟨-, rfl⟩ <;> cases hseen
  | load y hy => cases tryReceive <;> cases hseen
  | testNonempty y hsome =>
      obtain rfl : y = x := hseen.1
      exact Or.inr ⟨Or.inl rfl, hsome, rfl⟩
  | loopInactive y hactive =>
      obtain ⟨rfl, hx⟩ : y = x ∧ _ := hseen
      rw [hactive] at hx
      cases hx
  | exitActive y hactive =>
      obtain rfl : y = x := hseen
      exact Or.inl ⟨rfl, hactive⟩
  | unlock y => exact Or.inl hseen
  | tryNonempty y hsome =>
      obtain rfl : y = x := hseen
      exact Or.inr ⟨Or.inr rfl, hsome, rfl⟩
  | _ => cases hseen

end

/-- A call that has seen a message of `x` has a pointer to `x`. -/
theorem proxyOf_of_hasSeen {sh : Shared n} {x : Nat} {pc : Pc} (h : hasSeen sh x pc) :
    proxyOf pc = some x := by
  unfold hasSeen at h
  split at h
  · rw [← h.1]; rfl
  · rw [← h]; rfl
  · rw [← h]; rfl
  · cases h

/-- Other threads have seen no more after a step than before it. -/
theorem hasSeen_of_step {tr : List (Event n)} {s : State n} (hbox : InboxInv tr s) {t : Tid n}
    {sh : Shared n} {pc : Pc} {move : Move n} {e : Option (Event n)}
    (hf : threadFunction t s.shared (s.pc t) move = some (.step sh pc e)) {x : Nat} {r : Tid n}
    (h : hasSeen sh x (s.pc r)) : HasSeen s x r := by
  have hx := hbox.pc r x (proxyOf_of_hasSeen h)
  have hactive : (sh.proxy x).active = true → (s.shared.proxy x).active = true := by
    intro hnew
    by_contra hold
    rw [Bool.not_eq_true] at hold
    have hfalse : (sh.proxy x).active = false := by
      rcases threadFunction_cases hf with hstep | ⟨hstep, -⟩
      · exact hstep.inactive (fun _ _ _ => hx.ne) hold
      · exact hstep.inactive hold
    rw [hfalse] at hnew
    cases hnew
  unfold HasSeen
  unfold hasSeen at h ⊢
  split at h
  · exact ⟨h.1, hactive h.2⟩
  · exact h
  · exact h
  · cases h

/-- How the thread that moves comes to have seen a message. -/
theorem threadFunction_hasSeen {t : Tid n} {sh sh' : Shared n} {pc pc' : Pc} {move : Move n}
    {e : Option (Event n)} (hf : threadFunction t sh pc move = some (.step sh' pc' e)) {x : Nat}
    (hseen : hasSeen sh' x pc') :
    hasSeen sh x pc ∨ ((∃ k tryReceive, pc = .receive k tryReceive (.testEmpty x) ∨
      pc = .receive k tryReceive (.tryEmpty x)) ∧ (sh.proxy x).inbox ≠ [] ∧ sh' = sh) := by
  cases hrec : inReceive pc with
  | true =>
      cases pc with
      | receive k tryReceive r =>
          rcases (subscriptionReceive_receiveStep hf).2.hasSeen hseen with h | ⟨hr, hne, hsh⟩
          · exact Or.inl h
          · refine Or.inr ⟨⟨k, tryReceive, ?_⟩, hne, hsh⟩
            rcases hr with rfl | rfl
            · exact Or.inl rfl
            · exact Or.inr rfl
      | _ => cases hrec
  | false =>
      rcases threadFunction_cases hf with hstep | ⟨hstep, -⟩
      · exact absurd hseen (hstep.not_hasSeen hrec _ _)
      · exact absurd hseen (hstep.not_hasSeen _ _)

/-- A step of a thread keeps `SeenInv`. -/
theorem seenInv_thread {tr : List (Event n)} {s : State n} (hinv : SeenInv s)
    (hbox : InboxInv tr s) {t : Tid n} {sh : Shared n} {pc : Pc} {move : Move n}
    {e : Option (Event n)} (hK : EnoughMessages s (.thread t move))
    (hf : threadFunction t s.shared (s.pc t) move = some (.step sh pc e)) :
    SeenInv ⟨s.pool, sh, Function.update s.pc t pc, s.faulted⟩ := by
  intro x S hS
  have hothers : ∀ r ∈ S, r ≠ t → HasSeen s x r := by
    intro r hr hrt
    have hseen : hasSeen sh x (Function.update s.pc t pc r) := hS r hr
    rw [Function.update_of_ne hrt] at hseen
    exact hasSeen_of_step hbox hf hseen
  have hme : t ∈ S → hasSeen sh x pc := by
    intro ht
    have hseen : hasSeen sh x (Function.update s.pc t pc t) := hS t ht
    rwa [Function.update_self] at hseen
  -- Before the step there was a message for each of these calls, also for one that has just
  -- passed its test.
  have hbefore : S.card ≤ (s.shared.proxy x).inbox.length := by
    by_cases hold : ∀ r ∈ S, HasSeen s x r
    · exact hinv x S hold
    · have ht : t ∈ S := by
        by_contra ht
        exact hold fun r hr => hothers r hr (by rintro rfl; exact ht hr)
      rcases threadFunction_hasSeen hf (hme ht) with h | ⟨⟨k, tryReceive, hpc⟩, hne, -⟩
      · refine absurd (fun r hr => ?_) hold
        by_cases hrt : r = t
        · rw [hrt]
          exact h
        · exact hothers r hr hrt
      · have henough : ∀ S : Finset (Tid n), (∀ r ∈ S, HasSeen s x r) →
            S.card < (s.shared.proxy x).inbox.length := by
          rcases hpc with hpc | hpc <;> simp only [EnoughMessages, hpc] at hK <;> exact hK hne
        have hlt := henough (S.erase t) fun r hr =>
          hothers r (Finset.mem_of_mem_erase hr) (Finset.ne_of_mem_erase hr)
        have hcard := Finset.card_erase_add_one ht
        omega
  show S.card ≤ (sh.proxy x).inbox.length
  cases threadFunction_inboxStep hf (hbox.fresh _ le_rfl) with
  | keep hinbox hput hgot =>
      rw [hinbox x]
      exact hbefore
  | put y msg hpc he hinbox =>
      rw [hinbox x]
      by_cases hxy : x = y
      · subst hxy
        rw [if_pos rfl, List.length_append]
        omega
      · rw [if_neg hxy]
        exact hbefore
  | got k y tryReceive hpc he hinbox =>
      rw [hinbox x]
      by_cases hxy : x = y
      · subst hxy
        rw [if_pos rfl]
        -- The thread has taken its message, and was one of those that had seen one.
        have ht : t ∉ S := by
          intro ht
          rw [hpc] at hf
          have hstep := (subscriptionReceive_receiveStep hf).2
          have hseen := hme ht
          cases hstep with
          | test r r' hr => rcases hr with ⟨hr, -⟩ | ⟨hr, -⟩ | ⟨hr, -⟩ <;> cases hr
          | lock r y hr hfree => rcases hr with hr | hr <;> cases hr
          | failed r hr => cases hseen
          | got y => cases hseen
        have hcard : (insert t S).card ≤ (s.shared.proxy x).inbox.length := by
          refine hinv x (insert t S) ?_
          intro r hr
          rcases Finset.mem_insert.mp hr with rfl | hrS
          · show hasSeen s.shared x (s.pc r)
            rw [hpc]
            rfl
          · exact hothers r hrS (by rintro rfl; exact ht hrS)
        rw [Finset.card_insert_of_notMem ht] at hcard
        cases hin : (s.shared.proxy x).inbox with
        | nil =>
            rw [hin] at hcard
            simp at hcard
        | cons m ms =>
            rw [hin, List.length_cons] at hcard
            show S.card ≤ ms.length
            omega
      · rw [if_neg hxy]
        exact hbefore

/-- Every successful receive has yielded a message that was put into its inbox. -/
def YieldInv (tr : List (Event n)) : Prop :=
  ∀ t k x msg, .got t k x msg ∈ tr → ∃ m, msg = some m ∧ m ∈ puts tr x

/-- A receive that has seen a message yields one. -/
theorem yieldInv_thread {tr : List (Event n)} {s : State n} (hyield : YieldInv tr)
    (hinv : SeenInv s) (hbox : InboxInv tr s) {t : Tid n} {sh : Shared n} {pc : Pc}
    {move : Move n} {e : Option (Event n)}
    (hf : threadFunction t s.shared (s.pc t) move = some (.step sh pc e)) :
    YieldInv (tr ++ e.toList) := by
  intro t' k x msg hmem
  rcases List.mem_append.mp hmem with hmem | hmem
  · obtain ⟨m, hm, hput⟩ := hyield t' k x msg hmem
    exact ⟨m, hm, mem_puts_append hput⟩
  · have he : e = some (.got t' k x msg) := by simpa using hmem
    cases threadFunction_inboxStep hf (hbox.fresh _ le_rfl) with
    | keep hinbox hput hgot =>
        have hnone := hgot x
        rw [he] at hnone
        simp [gotOf] at hnone
    | put y msg' hpc he' hinbox =>
        rw [he] at he'
        cases he'
    | got k' y tryReceive hpc he' hinbox =>
        rw [he] at he'
        obtain ⟨rfl, rfl, rfl, rfl⟩ := Event.got.inj (Option.some.inj he')
        have hone : ({t'} : Finset (Tid n)).card ≤ (s.shared.proxy x).inbox.length := by
          refine hinv x {t'} ?_
          intro r hr
          rw [Finset.mem_singleton.mp hr]
          show hasSeen s.shared x (s.pc t')
          rw [hpc]
          rfl
        cases hin : (s.shared.proxy x).inbox with
        | nil =>
            rw [hin] at hone
            simp at hone
        | cons m ms =>
            refine ⟨m, rfl, mem_puts_append ?_⟩
            rw [← hbox.balance x, hin]
            simp

/-- In every run in which each call that finds an inbox non-empty finds a message for itself
there, a receive that returns 0 yields a message that was put into its inbox, and the messages
handed out of an inbox are the first of those put into it, each once and in their order. -/
theorem receive_yields_message {tr : List (Event n)} {s : State n}
    (h : (machine n capacity hcap).RunIf EnoughMessages tr s) :
    (∀ t k x msg, .got t k x msg ∈ tr → ∃ m, msg = some m ∧ m ∈ puts tr x) ∧
    (∀ x, handedOut tr x ++ (s.shared.proxy x).inbox = puts tr x) := by
  refine ⟨?_, (inboxInv_of_run h).balance⟩
  have hboth : SeenInv s ∧ YieldInv tr := by
    refine h.induction (I := fun tr s => SeenInv s ∧ YieldInv tr) ⟨?_, ?_⟩ ?_
    · intro x S hS
      have hempty : S = ∅ := by
        by_contra hne
        obtain ⟨r, hr⟩ := Finset.nonempty_iff_ne_empty.mpr hne
        exact hS r hr
      rw [hempty]
      simp
    · intro t k x msg hmem
      cases hmem
    · intro tr s a s' e hrun hinv hK hnext
      have hbox := inboxInv_of_run hrun
      rcases next_cases hnext with ⟨b, pool, t, pc, e', -, -, rfl, -, hpc, rfl⟩ |
          ⟨t, move, sh, pc, rfl, hf, rfl⟩ | ⟨t, rfl, rfl⟩
      · constructor
        · intro x S hS
          refine hinv.1 x S ?_
          intro r hr
          have hseen : hasSeen s.shared x (Function.update s.pc t pc r) := hS r hr
          by_cases hrt : r = t
          · rw [hrt, Function.update_self] at hseen
            have hpointer := proxyOf_of_hasSeen hseen
            rw [proxyOf_of_inCall hpc] at hpointer
            cases hpointer
          · rwa [Function.update_of_ne hrt] at hseen
        · intro t' k x msg hmem
          rcases List.mem_append.mp hmem with hmem | hmem
          · obtain ⟨m, hm, hput⟩ := hinv.2 t' k x msg hmem
            exact ⟨m, hm, mem_puts_append hput⟩
          · cases e' <;> simp at hmem
      · exact ⟨seenInv_thread hinv.1 hbox hK hf, yieldInv_thread hinv.2 hinv.1 hbox hf⟩
      · rw [Option.toList_none, List.append_nil]
        exact hinv
  exact hboth.2

/-! ### One receiver -/

/-- Receives are called by the client `c` only. -/
def OneReceiver (c : Nat) (_ : State n) : Action n → Prop
  | .thread t (.callReceive _ _) => t = .client c
  | _ => True

instance (c : Nat) (s : State n) (a : Action n) : Decidable (OneReceiver c s a) := by
  unfold OneReceiver
  induction a using MessageBroker.Action.casesOn with
  | thread t move => induction move using MessageBroker.Move.casesOn <;> infer_instance
  | _ => infer_instance

/-- A thread enters a receive by its call. -/
theorem threadFunction_inReceive {t : Tid n} {sh sh' : Shared n} {pc pc' : Pc} {move : Move n}
    {e : Option (Event n)} (h : threadFunction t sh pc move = some (.step sh' pc' e))
    (hrec : inReceive pc' = true) :
    inReceive pc = true ∨ ∃ k tryReceive, move = .callReceive k tryReceive := by
  cases pc with
  | idle =>
      right
      cases t with
      | dispatcher d => cases h
      | client c =>
          cases move with
          | callReceive k tryReceive => exact ⟨k, tryReceive, rfl⟩
          | callPublish name content =>
              obtain ⟨-, rfl, -⟩ := Outcome.step.inj (Option.some.inj h)
              cases hrec
          | callSubscribe name =>
              obtain ⟨-, rfl, -⟩ := Outcome.step.inj (Option.some.inj h)
              cases hrec
          | callUnsubscribe k =>
              simp only [threadFunction, call, Option.ite_none_right_eq_some, Option.some.injEq,
                Outcome.step.injEq] at h
              obtain ⟨-, -, rfl, -⟩ := h
              cases hrec
          | callFree k =>
              simp only [threadFunction, call, Option.ite_none_right_eq_some, Option.some.injEq] at h
              obtain ⟨-, h⟩ := h
              split_ifs at h <;> obtain ⟨-, rfl, -⟩ := Outcome.step.inj h <;> cases hrec
          | callPendingCount k =>
              simp only [threadFunction, call, Option.ite_none_right_eq_some, Option.some.injEq,
                Outcome.step.injEq] at h
              obtain ⟨-, -, rfl, -⟩ := h
              cases hrec
          | _ => cases h
  | receive k tryReceive r => exact Or.inl rfl
  | _ =>
      rcases threadFunction_cases h with hstep | ⟨hstep, -⟩
      · cases hstep <;> first
          | cases hrec
          | (rename_i hret; rcases hret with ⟨rfl, -⟩ | ⟨rfl, -⟩ <;> cases hrec)
      · cases hstep <;> cases hrec

/-- With one receiver a call that finds the inbox non-empty finds a message for itself. -/
theorem enoughMessages_of_oneReceiver {c : Nat} {tr : List (Event n)} {s : State n}
    (h : (machine n capacity hcap).RunIf (OneReceiver c) tr s) :
    (machine n capacity hcap).RunIf EnoughMessages tr s := by
  have honly : ∀ {tr s}, (machine n capacity hcap).RunIf (OneReceiver c) tr s →
      ∀ t, inReceive (s.pc t) = true → t = .client c := by
    intro tr s hrun
    refine hrun.induction (I := fun _ s => ∀ t, inReceive (s.pc t) = true → t = .client c) ?_ ?_
    · intro t ht
      cases ht
    · intro tr s a s' e _ hinv hK hnext
      rcases next_cases hnext with ⟨b, pool, t, pc, e', -, -, -, -, hpc, rfl⟩ |
          ⟨t, move, sh, pc, rfl, hf, rfl⟩ | ⟨t, -, rfl⟩
      · refine forall_update (P := fun t pc => inReceive pc = true → t = Tid.client c) ?_
          fun t' _ => hinv t'
        intro hrec
        rcases inCall_cases hpc with rfl | ⟨arg, rfl⟩ | rfl | ⟨arg, rfl⟩ <;> cases hrec
      · refine forall_update (P := fun t pc => inReceive pc = true → t = Tid.client c) ?_
          fun t' _ => hinv t'
        intro hrec
        rcases threadFunction_inReceive hf hrec with hold | ⟨k, tryReceive, rfl⟩
        · exact hinv t hold
        · exact hK
      · exact hinv
  refine h.mono_of_run ?_
  intro tr s a s' e hrun hK hnext
  -- Another call that has seen a message would be in a receive of another thread.
  have halone : ∀ t x, inReceive (s.pc t) = true → ¬ HasSeen s x t →
      ∀ S : Finset (Tid n), (∀ r ∈ S, HasSeen s x r) → S = ∅ := by
    intro t x ht hnot S hS
    by_contra hne
    obtain ⟨r, hr⟩ := Finset.nonempty_iff_ne_empty.mpr hne
    have hseen := hS r hr
    have hrec : inReceive (s.pc r) = true := by
      unfold HasSeen hasSeen at hseen
      split at hseen <;> first | (rename_i heq; rw [heq]; rfl) | cases hseen
    rw [honly hrun t ht, ← honly hrun r hrec] at hnot
    exact hnot hseen
  cases a with
  | thread t move =>
      simp only [EnoughMessages]
      split
      · rename_i hpc
        intro hne S hS
        rw [halone t _ (by rw [hpc]; rfl) (by unfold HasSeen; rw [hpc]; exact fun h => h) S hS]
        exact List.length_pos_of_ne_nil hne
      · rename_i hpc
        intro hne S hS
        rw [halone t _ (by rw [hpc]; rfl) (by unfold HasSeen; rw [hpc]; exact fun h => h) S hS]
        exact List.length_pos_of_ne_nil hne
      · trivial
  | _ => trivial

/-- A client subscribes to the channel `c`, a message is published there, and the client
receives it. -/
theorem receive_yields_message_oneReceiver :
    ∃ (tr : List (Event 1)) (s : State 1) (msg : Option Message),
      (machine 1 1 (by decide)).RunIf EnoughMessages tr s ∧ .got (.client 0) 0 0 msg ∈ tr ∧
      ∃ m, msg = some m ∧ m ∈ puts tr 0 := by
  let name : CString := ⟨[99], by decide⟩
  let m : Message := ⟨1, name, ⟨[49], by decide⟩, 0⟩
  obtain ⟨tr, s, hrun, htest⟩ := Machine.runIf_of_exec (M := machine 1 1 (by decide))
    (K := OneReceiver 0)
    (subscribeSchedule 0 name true ++ publishSchedule 1 name m.content ++ taskSchedule 0 1
      ++ .thread (.client 0) (.callReceive 0 false)
        :: List.replicate 9 (.thread (.client 0) .go))
    (fun tr _ => decide (.got (.client 0) 0 0 (some m) ∈ tr)) (by decide +kernel)
  have henough := enoughMessages_of_oneReceiver hrun
  exact ⟨tr, s, some m, henough, of_decide_eq_true htest,
    (receive_yields_message henough).1 _ _ _ _ (of_decide_eq_true htest)⟩

/-- Two threads receive on one active subscription whose inbox has one message. Both find the
inbox non-empty, and the second one to dequeue returns 0 without a message. -/
theorem receive_returns_null :
    ∃ (tr : List (Event 1)) (s : State 1),
      (machine 1 1 (by decide)).RunIf AllocationsSucceed tr s ∧
      (s.shared.subscription 0).active = true ∧ (s.shared.proxy 0).active = true ∧
      .got (.client 1) 0 0 none ∈ tr := by
  let name : CString := ⟨[99], by decide⟩
  obtain ⟨tr, s, hrun, htest⟩ := Machine.runIf_of_exec (M := machine 1 1 (by decide))
    (K := AllocationsSucceed)
    (subscribeSchedule 0 name true ++ publishSchedule 1 name ⟨[49], by decide⟩
      ++ taskSchedule 0 1
      ++ .thread (.client 0) (.callReceive 0 false)
        :: List.replicate 8 (.thread (.client 0) .go)
      ++ .thread (.client 1) (.callReceive 0 true)
        :: List.replicate 5 (.thread (.client 1) .go)
      ++ [.thread (.client 0) .go, .thread (.client 1) .go])
    (fun tr s => decide ((s.shared.subscription 0).active = true ∧
      (s.shared.proxy 0).active = true ∧ .got (.client 1) 0 0 none ∈ tr)) (by decide +kernel)
  exact ⟨tr, s, hrun, of_decide_eq_true htest⟩

end

end Miez.Proofs.MessageBroker
