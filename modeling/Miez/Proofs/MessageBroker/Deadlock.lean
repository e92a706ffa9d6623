import Miez.MessageBroker.Locks
import Miez.Proofs.MessageBroker.Delivery
import Miez.Proofs.MessageBroker.Receive

/-!
# `Miez.Proofs.MessageBroker.Deadlock`: the mutexes of the broker do not deadlock

The order is `_channels_mutex`, then the mutex of a channel, then an inbox mutex, then a leaf.
The pool mutex is never held together with one of the first three, and it comes before the
leaves. `rank` is this order.

For each mutex there is an invariant that tells at which program points a thread can hold it.
`channelsLock_of_run`, `channelLock_of_run` and `ThreadPool.mutexInv_of_run` are three of them,
and this file adds the inbox mutexes and the leaves. At each of these program points the mutex
that the thread waits for has a higher rank (`lockOrdered_of_run`), so there is no deadlock
(`not_deadlock_of_run`).
-/

set_option autoImplicit false

namespace Miez.Proofs.MessageBroker

open Miez.Lib
open Miez.MessageBroker
open Miez.ThreadPool (Tid)

section
variable {n : Nat} {capacity : UInt64} {hcap : capacity ≠ 0}

/-! ### The inbox mutexes -/

/-- The thread is between the lock and the unlock of the inbox mutex of the proxy `x`. An
unsubscribe reads its pointer again for each of its steps, and the pointer may be gone. -/
def insideInbox (sh : Shared n) (x : Nat) : Pc → Prop
  | .publisherTask _ pc =>
      match pc with
      | .signal _ _ y | .unlockInbox _ _ y => y = x
      | _ => False
  | .unsubscribe k _ pc =>
      match pc with
      | .broadcast | .unlockInbox => ∀ y, (sh.subscription k).proxy = some y → y = x
      | .freeProxy _ _ y .broadcast | .freeProxy _ _ y .unlock => y = x
      | _ => False
  | .receive _ _ pc =>
      match pc with
      | .testEmpty y | .testActiveLoop y | .condWait y | .testActiveExit y
      | .unlockInactive y | .unlock y => y = x
      | _ => False
  | _ => False

/-- What a step of the thread `t` does to the inbox mutex of the proxy `x`. -/
structure InboxLockStep (t : Tid n) (sh : Shared n) (pc : Pc) (sh' : Shared n) (pc' : Pc)
    (x : Nat) : Prop where
  holder : (sh'.proxy x).inboxMutex = (sh.proxy x).inboxMutex ∨
    (sh'.proxy x).inboxMutex = none ∨
    ((sh'.proxy x).inboxMutex = some t ∧ insideInbox sh' x pc')
  inside : insideInbox sh x pc → insideInbox sh' x pc' ∨ (sh'.proxy x).inboxMutex = none

section
variable {t : Tid n} {sh sh' : Shared n} {pc pc' : Pc} {e : Option (Event n)} {x : Nat}

/-- A step outside the critical sections that leaves the inbox mutexes alone. -/
theorem inboxLockStep_of_outside (hout : ¬ insideInbox sh x pc)
    (hmutex : (sh'.proxy x).inboxMutex = (sh.proxy x).inboxMutex ∨
      (sh'.proxy x).inboxMutex = none) : InboxLockStep t sh pc sh' pc' x :=
  ⟨hmutex.imp_right Or.inl, fun hin => absurd hin hout⟩

/-- A write to another field of a proxy leaves the inbox mutexes alone. -/
theorem setProxy_inboxMutex {y : Nat} {p : SubscriberProxy n}
    (hp : p.inboxMutex = (sh.proxy y).inboxMutex) (x : Nat) :
    ((sh.setProxy y p).proxy x).inboxMutex = (sh.proxy x).inboxMutex := by
  rw [setProxy_proxy]
  split
  · rename_i hxy
    rw [hp, hxy]
  · rfl

/-- A lock of the inbox mutex of `y`. -/
theorem inboxLockStep_lock {y : Nat} {p : SubscriberProxy n} (hp : p.inboxMutex = some t)
    (hout : ¬ insideInbox sh x pc) (hin : insideInbox (sh.setProxy y p) y pc') :
    InboxLockStep t sh pc (sh.setProxy y p) pc' x := by
  refine ⟨?_, fun h => absurd h hout⟩
  rw [setProxy_proxy]
  by_cases hxy : x = y
  · subst hxy
    rw [if_pos rfl]
    exact Or.inr (Or.inr ⟨hp, hin⟩)
  · rw [if_neg hxy]
    exact Or.inl rfl

/-- A step inside the critical section of the inbox mutex of `y`. -/
theorem inboxLockStep_inside {y : Nat} {p : SubscriberProxy n}
    (hp : p.inboxMutex = (sh.proxy y).inboxMutex)
    (hin : insideInbox sh x pc → insideInbox (sh.setProxy y p) x pc') :
    InboxLockStep t sh pc (sh.setProxy y p) pc' x :=
  ⟨Or.inl (setProxy_inboxMutex hp x), fun h => Or.inl (hin h)⟩

/-- An unlock of the inbox mutex of `y`. -/
theorem inboxLockStep_unlock {y : Nat} {p : SubscriberProxy n} (hp : p.inboxMutex = none)
    (hin : insideInbox sh x pc → x = y) : InboxLockStep t sh pc (sh.setProxy y p) pc' x := by
  by_cases hxy : x = y
  · have hnone : ((sh.setProxy y p).proxy x).inboxMutex = none := by
      rw [setProxy_proxy, if_pos hxy, hp]
    exact ⟨Or.inr (Or.inl hnone), fun _ => Or.inr hnone⟩
  · refine ⟨Or.inl ?_, fun h => absurd (hin h) hxy⟩
    rw [setProxy_proxy, if_neg hxy]

/-- A receive takes the inbox mutex and gives it back. -/
theorem ReceiveStep.inboxLockStep {k : Nat} {tryReceive : Bool} {r : ReceivePc}
    (h : ReceiveStep t k tryReceive sh r sh' pc' e) (x : Nat) :
    InboxLockStep t sh (.receive k tryReceive r) sh' pc' x := by
  cases h with
  | test r r' hr =>
      refine inboxLockStep_of_outside ?_ (Or.inl rfl)
      rcases hr with ⟨rfl, -⟩ | ⟨rfl, -⟩ | ⟨rfl, -⟩ <;> exact id
  | failed r hr =>
      refine inboxLockStep_of_outside ?_ (Or.inl rfl)
      rcases hr with rfl | rfl | rfl | ⟨y, rfl⟩ <;> exact id
  | load y hy => exact inboxLockStep_of_outside id (Or.inl rfl)
  | lock r y hr hfree =>
      refine inboxLockStep_lock rfl ?_ rfl
      rcases hr with rfl | rfl <;> exact id
  | condWait y => exact inboxLockStep_unlock rfl Eq.symm
  | wakeup y => exact inboxLockStep_inside rfl id
  | unlockInactive y => exact inboxLockStep_unlock rfl Eq.symm
  | unlock y => exact inboxLockStep_unlock rfl Eq.symm
  | tryNonempty y hsome => exact inboxLockStep_of_outside id (Or.inl rfl)
  | got y => exact inboxLockStep_inside rfl False.elim
  | _ => exact ⟨Or.inl rfl, Or.inl⟩

/-- An unsubscribe takes the inbox mutex of its proxy and gives it back. -/
theorem subscriptionUnsubscribe_inboxLockStep {k : Nat} {thenFree : Bool} {u : UnsubscribePc}
    {move : Move n} (h : subscriptionUnsubscribe t k thenFree sh u move = some (.step sh' pc' e))
    (hu : u = .lockInbox ∨ u = .broadcast ∨ u = .unlockInbox) (x : Nat) :
    InboxLockStep t sh (.unsubscribe k thenFree u) sh' pc' x := by
  rcases hu with rfl | rfl | rfl <;>
    obtain rfl : move = .go := by cases move <;> simp_all [subscriptionUnsubscribe]
  · simp only [subscriptionUnsubscribe, derefProxy_eq_step, Shared.lockInbox, Option.map_map,
      Option.map_eq_some_iff, lockMutex_eq_some, Function.comp_apply, Outcome.step.injEq] at h
    obtain ⟨-, y, hy, -, m, ⟨hfree, rfl⟩, rfl, rfl, rfl⟩ := h
    refine inboxLockStep_lock rfl id ?_
    intro y' hy'
    exact Option.some.inj (hy'.symm.trans hy)
  · simp only [subscriptionUnsubscribe, derefProxy_eq_step, Option.some.injEq,
      Outcome.step.injEq] at h
    obtain ⟨-, y, hy, -, rfl, rfl, rfl⟩ := h
    exact inboxLockStep_inside rfl id
  · simp only [subscriptionUnsubscribe, derefProxy_eq_step, Option.some.injEq,
      Outcome.step.injEq] at h
    obtain ⟨-, y, hy, -, rfl, rfl, rfl⟩ := h
    exact inboxLockStep_unlock rfl fun hin => (hin y hy).symm

/-- `_subscriber_proxy_free` takes the inbox mutex of its proxy and gives it back. -/
theorem freeProxy_inboxLockStep {k ch i y : Nat} {thenFree : Bool} {f : ProxyFreePc}
    {move : Move n} (h : subscriptionUnsubscribe t k thenFree sh (.freeProxy ch i y f) move =
      some (.step sh' pc' e)) (x : Nat) :
    InboxLockStep t sh (.unsubscribe k thenFree (.freeProxy ch i y f)) sh' pc' x := by
  obtain rfl : move = .go := by cases move <;> simp_all [subscriptionUnsubscribe]
  simp only [subscriptionUnsubscribe, Option.map_eq_some_iff] at h
  obtain ⟨⟨sh₁, r⟩, hf, hr⟩ := h
  cases hrel : (sh.proxy y).released with
  | true =>
      simp only [subscriberProxyFree, hrel, if_true, Option.some.injEq, Prod.mk.injEq] at hf
      obtain ⟨rfl, rfl⟩ := hf
      simp at hr
  | false =>
      simp only [subscriberProxyFree, hrel, Bool.false_eq_true, if_false] at hf
      cases f with
      | lock =>
          simp only [Shared.lockInbox, Option.map_map, Option.map_eq_some_iff, lockMutex_eq_some,
            Function.comp_apply, Prod.mk.injEq] at hf
          obtain ⟨m, ⟨-, rfl⟩, rfl, rfl⟩ := hf
          obtain ⟨rfl, rfl, rfl⟩ : _ = sh' ∧ _ = pc' ∧ none = e := by simpa using hr
          exact inboxLockStep_lock rfl id rfl
      | _ =>
          obtain ⟨rfl, rfl⟩ := Prod.mk.inj (Option.some.inj hf)
          obtain ⟨rfl, rfl, rfl⟩ : _ = sh' ∧ _ = pc' ∧ none = e := by simpa using hr
          first
            | exact inboxLockStep_inside rfl id
            | exact inboxLockStep_inside rfl False.elim
            | exact inboxLockStep_unlock rfl Eq.symm

/-- What a step of a thread does to the inbox mutexes. -/
theorem threadFunction_inboxLockStep {move : Move n}
    (h : threadFunction t sh pc move = some (.step sh' pc' e))
    (hstep : ThreadStep t sh pc sh' pc' e) (x : Nat) : InboxLockStep t sh pc sh' pc' x := by
  cases hstep with
  | taskMore hg | taskFound hg | subscribeMore hg | subscribeFound hg =>
      refine inboxLockStep_of_outside id (Or.inl ?_)
      cases hg <;> rfl
  | taskLockInbox ch i y hfree => exact inboxLockStep_lock rfl id rfl
  | taskSignal ch i y waiting => exact inboxLockStep_inside rfl id
  | taskUnlockInbox ch i y => exact inboxLockStep_unlock rfl Eq.symm
  | put ch i y => exact inboxLockStep_inside rfl False.elim
  | newProxy ch =>
      refine inboxLockStep_of_outside id ?_
      by_cases hx : x = sh.nextProxy
      · exact Or.inr (by simp [Shared.newProxy, Shared.setProxy, hx])
      · exact Or.inl (by simp [Shared.newProxy, Shared.setProxy, Function.update_of_ne hx])
  | unsubscribeTest u u' hu =>
      refine inboxLockStep_of_outside ?_ (Or.inl rfl)
      rcases hu with ⟨rfl, -⟩ | ⟨rfl, -⟩ <;> exact id
  | unsubscribeInbox y p u u' hp hinbox hu =>
      refine subscriptionUnsubscribe_inboxLockStep h ?_ x
      rcases hu with ⟨hu, -⟩ | ⟨hu, -⟩ | ⟨hu, -⟩
      · exact Or.inl hu
      · exact Or.inr (Or.inl hu)
      · exact Or.inr (Or.inr hu)
  | deactivate y hy => exact inboxLockStep_inside rfl False.elim
  | freeDeactivate ch i y => exact freeProxy_inboxLockStep h x
  | freeInbox ch i y p f f' hp hinbox hf => exact freeProxy_inboxLockStep h x
  | freeRelease ch i y => exact freeProxy_inboxLockStep h x
  | receiveRead hret => exact (subscriptionReceive_receiveStep h).2.inboxLockStep x
  | receiveInbox y p hp hinbox hret => exact (subscriptionReceive_receiveStep h).2.inboxLockStep x
  | got y => exact (subscriptionReceive_receiveStep h).2.inboxLockStep x
  | _ => exact inboxLockStep_of_outside id (Or.inl rfl)

/-- A step keeps the pointer of a subscription to its proxy, or clears it. -/
theorem ThreadStep.pointer (h : ThreadStep t sh pc sh' pc' e) {k : Nat}
    (hk : k < sh.nextSubscription) :
    (sh'.subscription k).proxy = (sh.subscription k).proxy ∨
      (sh'.subscription k).proxy = none := by
  have hset : ∀ (k' : Nat) (sub : Subscription),
      sub.proxy = (sh.subscription k').proxy ∨ sub.proxy = none →
      ((sh.setSubscription k' sub).subscription k).proxy = (sh.subscription k).proxy ∨
        ((sh.setSubscription k' sub).subscription k).proxy = none := by
    intro k' sub hsub
    by_cases hkk : k = k'
    · subst hkk
      simpa [Shared.setSubscription] using hsub
    · exact Or.inl (by simp [Shared.setSubscription, Function.update_of_ne hkk])
  cases h with
  | taskMore hg | taskFound hg | subscribeMore hg | subscribeFound hg =>
      refine Or.inl ?_
      cases hg <;> rfl
  | newSubscription y =>
      exact Or.inl (by
        simp [Shared.newSubscription, Shared.setSubscription, Function.update_of_ne hk.ne])
  | clearActive => exact hset _ _ (Or.inl rfl)
  | clearProxy hret => exact hset _ _ (Or.inr rfl)
  | release k' => exact hset _ _ (Or.inl rfl)
  | _ => exact Or.inl rfl

/-- A thread stays inside its critical section when another thread clears a pointer. -/
theorem insideInbox_of_pointer (hin : insideInbox sh x pc)
    (hpointer : ∀ k, unsubscribing pc = some k →
      (sh'.subscription k).proxy = (sh.subscription k).proxy ∨
        (sh'.subscription k).proxy = none) : insideInbox sh' x pc := by
  unfold insideInbox at hin ⊢
  split at hin
  · exact hin
  · rename_i k thenFree u
    split at hin
    case h_1 | h_2 =>
      intro y hy
      rcases hpointer k rfl with hsame | hnone
      · exact hin y (hsame ▸ hy)
      · rw [hnone] at hy
        cases hy
    all_goals exact hin
  · exact hin
  · exact hin

end

/-- The holder of an inbox mutex is inside its critical section. -/
def InboxMutexInv (s : State n) : Prop :=
  ∀ x t, (s.shared.proxy x).inboxMutex = some t → insideInbox s.shared x (s.pc t)

/-- A program point of `inCall` is outside the critical sections. -/
theorem not_insideInbox_of_inCall {sh : Shared n} {x : Nat} {pc : Pc} (h : inCall pc = true) :
    ¬ insideInbox sh x pc := by
  rcases inCall_cases h with rfl | ⟨arg, rfl⟩ | rfl | ⟨arg, rfl⟩ <;> exact id

/-- `InboxMutexInv` holds in every state of a run. -/
theorem inboxMutexInv_of_run {tr : List (Event n)} {s : State n}
    (h : (machine n capacity hcap).RunIf AllocationsSucceed tr s) : InboxMutexInv s := by
  refine h.induction (I := fun _ s => InboxMutexInv s) ?_ ?_
  · intro x t hx
    cases hx
  · intro tr s a s' e hrun hinv hK hnext
    rcases next_cases hnext with ⟨b, pool, t, pc, e', -, -, -, hold, -, rfl⟩ |
        ⟨t, move, sh, pc, rfl, hf, rfl⟩ | ⟨t, -, rfl⟩
    · intro x t' hx
      have hin := hinv x t' hx
      have hne : t' ≠ t := by
        rintro rfl
        exact not_insideInbox_of_inCall hold hin
      simpa only [Function.update_of_ne hne] using hin
    · have hstep := threadFunction_step hf (by rintro rfl; exact hK) (by rintro rfl; exact hK)
        (onFailurePath_of_run hrun t)
      intro x t' hx
      have hlock := threadFunction_inboxLockStep hf hstep x
      by_cases ht : t' = t
      · subst ht
        show insideInbox sh x (Function.update s.pc t' pc t')
        rw [Function.update_self]
        rcases hlock.holder with hsame | hnone | ⟨-, hin⟩
        · rcases hlock.inside (hinv x t' (hsame ▸ hx)) with hin | hnone
          · exact hin
          · rw [hnone] at hx
            cases hx
        · rw [hnone] at hx
          cases hx
        · exact hin
      · show insideInbox sh x (Function.update s.pc t pc t')
        rw [Function.update_of_ne ht]
        have hsame : (s.shared.proxy x).inboxMutex = some t' := by
          rcases hlock.holder with hsame | hnone | ⟨hme, -⟩
          · exact hsame ▸ hx
          · rw [hnone] at hx
            cases hx
          · exact absurd (Option.some.inj (hx.symm.trans hme)) ht
        refine insideInbox_of_pointer (hinv x t' hsame) ?_
        intro k hk
        exact hstep.pointer ((targetInv_of_run hrun).called t' k hk).2
    · exact hinv

/-! ### Steps with the leaves -/

/-- A step locks a leaf, is a step of the broker by a thread that needs no leaf or holds one, or
unlocks a leaf. -/
theorem locks_next_cases {s s' : Locks.State n} {a : Locks.Action n} {e : Option (Event n)}
    (h : Locks.next s a = some (s', e)) :
    (∃ t l, a = .acquire t ∧ s.leafPc t = .out ∧ Locks.leafOf s.broker t = some l ∧
      s.leafHolder l = none ∧ e = none ∧
      s' = ⟨s.broker, Function.update s.leafHolder l (some t),
        Function.update s.leafPc t (.held l)⟩) ∨
    (∃ b broker, a = .step b ∧ Locks.succeeds b = true ∧ s.leafPc (Locks.actor b) = .out ∧
      Locks.leafOf s.broker (Locks.actor b) = none ∧ next s.broker b = some (broker, e) ∧
      s' = { s with broker := broker }) ∨
    (∃ b broker l, a = .step b ∧ Locks.succeeds b = true ∧
      s.leafPc (Locks.actor b) = .held l ∧ next s.broker b = some (broker, e) ∧
      s' = ⟨broker, s.leafHolder, Function.update s.leafPc (Locks.actor b) (.done l)⟩) ∨
    (∃ t l, a = .release t ∧ s.leafPc t = .done l ∧ e = none ∧
      s' = ⟨s.broker, Function.update s.leafHolder l none, Function.update s.leafPc t .out⟩) := by
  cases a with
  | acquire t =>
      simp only [Locks.next] at h
      split at h
      · rename_i l hpc hleaf
        simp only [Option.ite_none_right_eq_some, Option.some.injEq, Prod.mk.injEq] at h
        obtain ⟨⟨hfree, -⟩, rfl, rfl⟩ := h
        exact Or.inl ⟨t, l, rfl, hpc, hleaf, hfree, rfl, rfl⟩
      · cases h
  | step b =>
      simp only [Locks.next, Option.ite_none_right_eq_some] at h
      obtain ⟨hsucc, h⟩ := h
      split at h
      · rename_i hpc hleaf
        simp only [Option.map_eq_some_iff, Prod.mk.injEq, Prod.exists] at h
        obtain ⟨broker, e', hnext, rfl, rfl⟩ := h
        exact Or.inr (Or.inl ⟨b, broker, rfl, hsucc, hpc, hleaf, hnext, rfl⟩)
      · rename_i l hpc
        simp only [Option.map_eq_some_iff, Prod.mk.injEq, Prod.exists] at h
        obtain ⟨broker, e', hnext, rfl, rfl⟩ := h
        exact Or.inr (Or.inr (Or.inl ⟨b, broker, l, rfl, hsucc, hpc, hnext, rfl⟩))
      · cases h
  | release t =>
      simp only [Locks.next] at h
      split at h
      · rename_i l hpc
        simp only [Option.ite_none_left_eq_some, Option.some.injEq, Prod.mk.injEq] at h
        obtain ⟨-, rfl, rfl⟩ := h
        exact Or.inr (Or.inr (Or.inr ⟨t, l, rfl, hpc, rfl, rfl⟩))
      · cases h

/-- A step in which no allocation fails. -/
theorem allocationsSucceed_of_succeeds {s : State n} {b : Action n}
    (h : Locks.succeeds b = true) : AllocationsSucceed s b := by
  unfold AllocationsSucceed
  split <;> trivial

/-- Without the leaves, a run is a run of the broker. -/
theorem brokerRun_of_locks {tr : List (Event n)} {s : Locks.State n}
    (h : (Locks.machine n capacity hcap).Run tr s) :
    (machine n capacity hcap).RunIf AllocationsSucceed tr s.broker := by
  have hmap : (machine n capacity hcap).RunIf AllocationsSucceed (tr.filterMap some) s.broker := by
    refine h.map Locks.State.broker some rfl ?_
    intro tr s a s' e _ _ hnext
    rw [Option.bind_fun_some]
    rcases locks_next_cases hnext with ⟨t, l, -, -, -, -, rfl, rfl⟩ |
        ⟨b, broker, -, hsucc, -, -, hb, rfl⟩ | ⟨b, broker, l, -, hsucc, -, hb, rfl⟩ |
        ⟨t, l, -, -, rfl, rfl⟩
    · exact Or.inr ⟨rfl, rfl⟩
    · exact Or.inl ⟨b, allocationsSucceed_of_succeeds hsucc, hb⟩
    · exact Or.inl ⟨b, allocationsSucceed_of_succeeds hsucc, hb⟩
    · exact Or.inr ⟨rfl, rfl⟩
  rwa [List.filterMap_some] at hmap

/-- The thread is inside an operation that has locked the leaf `l`. -/
def insideLeaf (l : Locks.Leaf n) (pc : Locks.LeafPc n) : Prop := pc = .held l ∨ pc = .done l

/-- A leaf is held by exactly the thread inside an operation of its container. -/
theorem leafLock_of_run {tr : List (Event n)} {s : Locks.State n}
    (h : (Locks.machine n capacity hcap).Run tr s) (l : Locks.Leaf n) :
    LockInv (fun t => insideLeaf l (s.leafPc t)) (s.leafHolder l) := by
  refine h.induction
    (I := fun _ s => LockInv (fun t => insideLeaf l (s.leafPc t)) (s.leafHolder l)) ?_ ?_
  · intro t
    simp [Locks.machine, insideLeaf]
  · intro tr s a s' e _ hinv _ hnext
    rcases locks_next_cases hnext with ⟨t, l', -, hpc, -, hfree, -, rfl⟩ |
        ⟨b, broker, -, -, -, -, -, rfl⟩ | ⟨b, broker, l', -, -, hpc, -, rfl⟩ |
        ⟨t, l', -, hpc, -, rfl⟩
    · refine hinv.update (P := insideLeaf l) t _ ?_
      by_cases hl : l = l'
      · subst hl
        exact .acquire hfree (Function.update_self ..) (by simp [insideLeaf, hpc]) (Or.inl rfl)
      · exact .keep (Function.update_of_ne hl ..) (by simp [insideLeaf, hpc, Ne.symm hl])
    · exact hinv
    · exact hinv.update (P := insideLeaf l) _ _ (.keep rfl (by simp [insideLeaf, hpc]))
    · refine hinv.update (P := insideLeaf l) t _ ?_
      by_cases hl : l = l'
      · subst hl
        exact .release (Function.update_self ..) (Or.inr hpc) (by simp [insideLeaf])
      · exact .keep (Function.update_of_ne hl ..) (by simp [insideLeaf, hpc, Ne.symm hl])

/-! ### The order -/

/-- The order in which the mutexes are taken. -/
def rank : Locks.Mutex n → Nat
  | .channels => 0
  | .channel _ => 1
  | .inbox _ | .pool => 2
  | .leaf _ => 3

section
variable {s : State n} {t : Tid n} {m : Locks.Mutex n}

/-- A thread inside the pool waits for the pool mutex only. -/
theorem eq_pool_of_poolLock {pool : ThreadPool.State n PublisherTaskArg}
    (h : Locks.poolLock pool t = some m) : m = .pool := by
  cases t with
  | dispatcher d => cases hpc : pool.dispatcher d <;> simp_all [Locks.poolLock]
  | client c =>
      cases hpc : pool.client c with
      | idle => simp [Locks.poolLock, hpc] at h
      | submit pc => cases pc <;> simp_all [Locks.poolLock]
      | wait pc => cases pc <;> simp_all [Locks.poolLock]
      | shutdown pc => cases pc <;> simp_all [Locks.poolLock]

/-- The mutexes of the broker that a thread can hold while it waits for the mutex. -/
inductive LockPoint (sh : Shared n) (pc : Pc) : Locks.Mutex n → Prop where
  | channels (houter : ¬ holdsChannels pc) (hchannel : channelHeld pc = none)
      (hinbox : ∀ x, ¬ insideInbox sh x pc) : LockPoint sh pc .channels
  | channel (ch : Nat) (hchannel : channelHeld pc = none)
      (hinbox : ∀ x, ¬ insideInbox sh x pc) : LockPoint sh pc (.channel ch)
  | inbox (x : Nat) (hinbox : ∀ x, ¬ insideInbox sh x pc) : LockPoint sh pc (.inbox x)
  | pool (hpc : pc = .idle ∨ pc = .inPool) : LockPoint sh pc .pool

/-- Every lock of the broker is taken at a `LockPoint`. -/
theorem lockPoint_of_lockOf (h : Locks.lockOf s t = some m) : LockPoint s.shared (s.pc t) m := by
  unfold Locks.lockOf at h
  cases hpc : s.pc t with
  | idle =>
      rw [hpc] at h
      obtain rfl := eq_pool_of_poolLock h
      exact .pool (Or.inl rfl)
  | inPool =>
      rw [hpc] at h
      obtain rfl := eq_pool_of_poolLock h
      exact .pool (Or.inr rfl)
  | publisherTask arg pc =>
      rw [hpc] at h
      cases pc with
      | getChannel g =>
          cases g with
          | lock => cases h; exact .channels id rfl fun _ => id
          | _ => cases h
      | lockChannel ch => cases h; exact .channel ch rfl fun _ => id
      | lockInbox ch i x => cases h; exact .inbox x fun _ => id
      | _ => cases h
  | subscribe name subscriberId pc =>
      rw [hpc] at h
      cases pc with
      | getChannel g =>
          cases g with
          | lock => cases h; exact .channels id rfl fun _ => id
          | _ => cases h
      | lockChannel ch x => cases h; exact .channel ch rfl fun _ => id
      | freeProxy x f =>
          cases f with
          | lock => cases h; exact .inbox x fun _ => id
          | _ => cases h
      | _ => cases h
  | unsubscribe k thenFree pc =>
      rw [hpc] at h
      cases pc with
      | lockInbox =>
          obtain ⟨x, -, rfl⟩ := Option.map_eq_some_iff.mp h
          exact .inbox x fun _ => id
      | lockChannels => cases h; exact .channels id rfl fun _ => id
      | lockChannel ch => cases h; exact .channel ch rfl fun _ => id
      | freeProxy ch i x f =>
          cases f with
          | lock => cases h; exact .inbox x fun _ => id
          | _ => cases h
      | _ => cases h
  | receive k tryReceive pc =>
      rw [hpc] at h
      cases pc with
      | lock x => cases h; exact .inbox x fun _ => id
      | parked x =>
          simp only [Option.ite_none_left_eq_some, Option.some.injEq] at h
          obtain ⟨-, rfl⟩ := h
          exact .inbox x fun _ => id
      | _ => cases h
  | _ =>
      rw [hpc] at h
      cases h

/-- A thread inside the pool mutex is in the pool, in the eyes of the broker. -/
theorem pc_of_inside {tr : List (Event n)}
    (h : (machine n capacity hcap).RunIf AllocationsSucceed tr s)
    (hin : ThreadPool.inside s.pool t) : s.pc t = .idle ∨ s.pc t = .inPool := by
  cases t with
  | dispatcher d =>
      rcases dispatcherInv_of_run h d with hidle | ⟨arg, harg⟩
      · exact Or.inl hidle
      · obtain ⟨d', task, heq, hrunning, -⟩ := taskInv_of_run h _ arg harg
        cases heq
        rw [ThreadPool.inside, hrunning] at hin
        exact absurd hin id
  | client c =>
      refine Or.inr (((publishInv_of_run h).inPool c).mpr ?_)
      intro hidle
      rw [ThreadPool.inside, hidle] at hin
      exact hin

/-- A thread inside the pool mutex does not wait for it. -/
theorem poolLock_of_inside {pool : ThreadPool.State n PublisherTaskArg}
    (hin : ThreadPool.inside pool t) : Locks.poolLock pool t = none := by
  cases t with
  | dispatcher d =>
      cases hpc : pool.dispatcher d <;> simp_all [Locks.poolLock, ThreadPool.inside, ThreadPool.holds]
  | client c =>
      cases hpc : pool.client c with
      | idle => simp [Locks.poolLock, hpc]
      | submit pc =>
          cases pc <;> simp_all [Locks.poolLock, ThreadPool.inside, ThreadPool.clientHolds]
      | wait pc =>
          cases pc <;> simp_all [Locks.poolLock, ThreadPool.inside, ThreadPool.clientHolds]
      | shutdown pc =>
          cases pc <;> simp_all [Locks.poolLock, ThreadPool.inside, ThreadPool.clientHolds]

end

/-- In every state of a run, a thread waits only for mutexes that come after the ones it
holds. -/
theorem lockOrdered_of_run {tr : List (Event n)} {s : Locks.State n}
    (h : (Locks.machine n capacity hcap).Run tr s) :
    LockOrdered rank (Locks.waitsFor s) (Locks.holder s) := by
  have hrun := brokerRun_of_locks h
  intro t m m' hheld hwaits
  have hout : s.leafPc t = .out ∧
      ((∃ l, Locks.leafOf s.broker t = some l ∧ m' = .leaf l) ∨
        Locks.lockOf s.broker t = some m') := by
    unfold Locks.waitsFor at hwaits
    split at hwaits
    · rename_i hpc
      refine ⟨hpc, ?_⟩
      cases hleaf : Locks.leafOf s.broker t with
      | none => exact Or.inr (by simpa [hleaf] using hwaits)
      | some l => exact Or.inl ⟨l, rfl, by simpa [hleaf] using hwaits.symm⟩
    · cases hwaits
  obtain ⟨hpc, hm'⟩ := hout
  cases m with
  | leaf l =>
      rcases (leafLock_of_run h l t).mpr hheld with hin | hin <;>
      · rw [hpc] at hin
        cases hin
  | channels =>
      have hin := (channelsLock_of_run hrun t).mpr hheld
      rcases hm' with ⟨l, -, rfl⟩ | hlock
      · simp [rank]
      · cases lockPoint_of_lockOf hlock with
        | channels houter _ _ => exact absurd hin houter
        | _ => simp [rank]
  | channel ch =>
      have hin : channelHeld (s.broker.pc t) = some ch := (channelLock_of_run hrun ch t).mpr hheld
      rcases hm' with ⟨l, -, rfl⟩ | hlock
      · simp [rank]
      · cases lockPoint_of_lockOf hlock with
        | channels _ hchannel _ =>
            rw [hchannel] at hin
            cases hin
        | channel ch' hchannel _ =>
            rw [hchannel] at hin
            cases hin
        | _ => simp [rank]
  | inbox x =>
      have hin := inboxMutexInv_of_run hrun x t hheld
      rcases hm' with ⟨l, -, rfl⟩ | hlock
      · simp [rank]
      · cases lockPoint_of_lockOf hlock with
        | channels _ _ hinbox => exact absurd hin (hinbox x)
        | channel _ _ hinbox => exact absurd hin (hinbox x)
        | inbox _ hinbox => exact absurd hin (hinbox x)
        | pool hpc =>
            rcases hpc with hpc | hpc <;>
            · rw [hpc] at hin
              exact absurd hin id
  | pool =>
      have hin := (ThreadPool.mutexInv_of_run (poolRun_of_run hrun) t).mpr hheld
      rcases hm' with ⟨l, -, rfl⟩ | hlock
      · simp [rank]
      · have hnone : Locks.lockOf s.broker t = none := by
          rcases pc_of_inside hrun hin with hpc | hpc <;>
          · unfold Locks.lockOf
            rw [hpc]
            exact poolLock_of_inside hin
        rw [hnone] at hlock
        cases hlock

/-- No state of a run has a thread that waits for a mutex it holds, or a cycle of threads each
of which waits for a mutex held by the next. -/
theorem not_deadlock_of_run {tr : List (Event n)} {s : Locks.State n}
    (h : (Locks.machine n capacity hcap).Run tr s) :
    ¬ Deadlock (Locks.waitsFor s) (Locks.holder s) :=
  (lockOrdered_of_run h).not_deadlock

/-- Two clients subscribe to the channel `c`. The first one holds `_channels_mutex` and is about
to look into the table, and the second one waits for it. -/
theorem not_deadlock_two_subscribers :
    ∃ (tr : List (Event 1)) (s : Locks.State 1),
      (Locks.machine 1 1 (by decide)).Run tr s ∧
      WaitsOn (Locks.waitsFor s) (Locks.holder s) (.client 1) (.client 0) ∧
      Locks.waitsFor s (.client 0) = some (.leaf (.bucket 0)) ∧
      ¬ Deadlock (Locks.waitsFor s) (Locks.holder s) := by
  let name : CString := ⟨[99], by decide⟩
  obtain ⟨tr, s, hrun, htest⟩ := Machine.run_of_exec (M := Locks.machine 1 1 (by decide))
    [.step (.thread (.client 0) (.callSubscribe name)),
      .step (.thread (.client 1) (.callSubscribe name)), .step (.thread (.client 0) .go)]
    (fun _ s => decide (Locks.waitsFor s (.client 1) = some .channels ∧
      Locks.holder s .channels = some (.client 0) ∧
      Locks.waitsFor s (.client 0) = some (.leaf (.bucket 0)))) (by decide +kernel)
  obtain ⟨hwaits, hholder, hbucket⟩ := of_decide_eq_true htest
  exact ⟨tr, s, hrun, ⟨.channels, hwaits, hholder⟩, hbucket, not_deadlock_of_run hrun⟩

end

end Miez.Proofs.MessageBroker
