import Miez.Proofs.MessageBroker.Deadlock
import Miez.Proofs.MessageBroker.Sleepers

/-!
# `Miez.Proofs.MessageBroker.Removal`: how a subscription ends

A subscription is ended by the thread that unsubscribes or frees it: this thread alone writes its
flag and clears its pointer, and the proxy is released by no one else. The invariants of the lists
and the subscriptions are restated here for the runs with fewer than 2^64 subscribes, and an
unsubscribe that has returned leaves a subscription that is inactive for good.
-/

set_option autoImplicit false

namespace Miez.Proofs.MessageBroker

open Miez.Lib
open Miez.MessageBroker
open Miez.ThreadPool (Tid)

section
variable {n : Nat} {capacity : UInt64} {hcap : capacity ≠ 0}

/-! ### Runs with few subscribes -/

/-- The invariants of the lists and the subscriptions in a run without failing allocations and
with fewer than 2^64 subscribes. -/
theorem listedInv_of_bound {tr : List (Event n)} {s : State n}
    (h : (machine n capacity hcap).RunIf AllocationsSucceed tr s)
    (hbound : s.shared.nextSubscribe < 2 ^ 64) : BrokerInv tr s ∧ ListedInv tr s := by
  have hbroker : ∀ {tr s}, (machine n capacity hcap).RunIf AllocationsSucceed tr s →
      s.shared.nextSubscribe < 2 ^ 64 → BrokerInv tr s := by
    intro tr s h hbound
    exact ⟨channelsLock_of_run h, channelLock_of_run h, tableInv_of_run h, fresh_of_run h,
      listInv_of_run h, ownerInv_of_run h, targetInv_of_run h, idInv_of_run h hbound, hbound⟩
  refine ⟨hbroker h hbound, ?_⟩
  refine h.induction (I := fun tr s => s.shared.nextSubscribe < 2 ^ 64 → ListedInv tr s) ?_ ?_
    hbound
  · intro _
    have hnil : (machine n capacity hcap).RunIf HarmlessFailures [] _ := .nil
    exact (listedInv_of_run hnil).2
  · intro tr s a s' e hrun hl hK hnext hbound
    have hbefore := (nextSubscribe_le_of_next hrun hK hnext).trans_lt hbound
    rcases next_cases hnext with ⟨b, pool, t, pc, e', -, -, rfl, hold, hnew, rfl⟩ |
        ⟨t, move, sh, pc, rfl, hf, rfl⟩ | ⟨t, rfl, rfl⟩
    · exact listedInv_harmless (hl hbefore) (harmlessStep_of_pool hold hnew) pool
    · exact listedInv_thread (hbroker hrun hbefore) (hl hbefore) hf (threadFunction_step hf
        (by rintro rfl; exact hK) (by rintro rfl; exact hK) (onFailurePath_of_run hrun t))
    · rw [Option.toList_none, List.append_nil]
      have hl := hl hbefore
      exact ⟨hl.1, hl.2, hl.3, hl.4, hl.5, hl.6, hl.7, hl.8⟩

/-! ### Threads at the end of a subscription -/

/-- The subscription that the thread frees, or whose pointer it clears. -/
def ended : Pc → Option Nat
  | .free k | .unsubscribe k _ .clearProxy => some k
  | _ => none

section
variable {t : Tid n} {sh sh' : Shared n} {pc pc' : Pc} {e : Option (Event n)}

/-- A subscription that is not unsubscribed or freed by the thread is left alone. -/
theorem ThreadStep.subscription_of_other (h : ThreadStep t sh pc sh' pc' e) {k : Nat}
    (hk : k < sh.nextSubscription) (huns : MessageBroker.unsubscribing pc ≠ some k)
    (hfree : pc ≠ .free k) :
    sh'.subscription k = sh.subscription k := by
  cases h with
  | taskMore hg | taskFound hg | subscribeMore hg | subscribeFound hg => cases hg <;> rfl
  | newSubscription y => exact Function.update_of_ne hk.ne ..
  | @clearActive k' thenFree =>
      have hne : k ≠ k' := by
        rintro rfl
        exact huns rfl
      exact Function.update_of_ne hne ..
  | @clearProxy k' thenFree pc' e hret =>
      have hne : k ≠ k' := by
        rintro rfl
        exact huns rfl
      exact Function.update_of_ne hne ..
  | release k' =>
      have hne : k ≠ k' := by
        rintro rfl
        exact hfree rfl
      exact Function.update_of_ne hne ..
  | _ => rfl

/-- A proxy is released by the unsubscribe that frees it. -/
theorem ThreadStep.released (h : ThreadStep t sh pc sh' pc' e) {x : Nat} (hx : x < sh.nextProxy)
    (hlive : (sh.proxy x).released = false) :
    (sh'.proxy x).released = false ∨ ∃ k thenFree ch i,
      pc = .unsubscribe k thenFree (.freeProxy ch i x .release) ∧
      pc' = .unsubscribe k thenFree (.unlink ch i) := by
  have hset : ∀ (y : Nat) (p : SubscriberProxy n), p.released = (sh.proxy y).released →
      ((sh.setProxy y p).proxy x).released = false := by
    intro y p hp
    rw [setProxy_proxy]
    by_cases hxy : x = y
    · subst hxy
      rw [if_pos rfl, hp]
      exact hlive
    · rw [if_neg hxy]
      exact hlive
  cases h with
  | taskMore hg | taskFound hg | subscribeMore hg | subscribeFound hg =>
      rw [hg.proxy.1]
      exact Or.inl hlive
  | @newProxy name id ch =>
      left
      have hold : (sh.newProxy id ch).proxy x = sh.proxy x := Function.update_of_ne hx.ne ..
      rw [hold]
      exact hlive
  | put ch i y | taskLockInbox ch i y hfree | taskSignal ch i y waiting | taskUnlockInbox ch i y
  | freeDeactivate ch i y => exact Or.inl (hset y _ (by rfl))
  | deactivate y hy => exact Or.inl (hset y _ (by rfl))
  | got y => exact Or.inl (hset y _ (by rfl))
  | unsubscribeInbox y p u u' hp hinbox hu => exact Or.inl (hset y p hp.released)
  | freeInbox ch i y p f f' hp hinbox hf => exact Or.inl (hset y p hp.released)
  | receiveInbox y p hp hinbox hret => exact Or.inl (hset y p hp.released)
  | freeRelease ch i y =>
      by_cases hxy : x = y
      · subst hxy
        exact Or.inr ⟨_, _, ch, i, rfl, rfl⟩
      · left
        rw [setProxy_proxy, if_neg hxy]
        exact hlive
  | _ => exact Or.inl hlive

end

/-- How a thread comes to the end of a subscription: the subscription is inactive by then. -/
theorem threadFunction_ended {t : Tid n} {sh sh' : Shared n} {pc pc' : Pc} {move : Move n}
    {e : Option (Event n)} (h : threadFunction t sh pc move = some (.step sh' pc' e))
    (hstep : ThreadStep t sh pc sh' pc' e) {k : Nat} (hk : ended pc' = some k) :
    ended pc = some k ∨ ((sh'.subscription k).active = false ∧
      (unsubscribing pc = some k ∨ k < sh.nextSubscription)) := by
  cases hstep with
  | callFree c ht k' =>
      obtain rfl : k' = k := Option.some.inj hk
      subst ht
      right
      cases move with
      | callFree k =>
          simp only [threadFunction, call, Option.ite_none_right_eq_some, Option.some.injEq] at h
          obtain ⟨husable, h⟩ := h
          simp only [Shared.usable, Bool.and_eq_true, decide_eq_true_eq] at husable
          split at h
          · cases h
          · rename_i hactive
            obtain ⟨-, hpc, -⟩ := Outcome.step.inj h
            obtain rfl : k = k' := Pc.free.inj hpc
            exact ⟨by simpa using hactive, Or.inr husable.1⟩
      | callPublish name content => simp [threadFunction, call] at h
      | callSubscribe name => simp [threadFunction, call] at h
      | callUnsubscribe k => simp [threadFunction, call] at h
      | callReceive k tryReceive => simp [threadFunction, call] at h
      | callPendingCount k => simp [threadFunction, call] at h
      | _ => cases h
  | @unsubscribeInactive k' thenFree pc' e hret =>
      rcases hret with ⟨rfl, -⟩ | ⟨rfl, -⟩
      · obtain rfl : k' = k := Option.some.inj hk
        exact Or.inr ⟨inactive_of_return h rfl, Or.inl rfl⟩
      · cases hk
  | @clearActive k' thenFree =>
      obtain rfl : k' = k := Option.some.inj hk
      exact Or.inr ⟨by simp [Shared.setSubscription], Or.inl rfl⟩
  | clearProxy hret =>
      rcases hret with ⟨rfl, -⟩ | ⟨rfl, -⟩
      · exact Or.inl hk
      · cases hk
  | unsubscribeTest u u' hu => rcases hu with ⟨-, rfl⟩ | ⟨-, rfl | rfl⟩ <;> cases hk
  | unsubscribeInbox y p u u' hp hinbox hu =>
      rcases hu with ⟨-, rfl⟩ | ⟨-, rfl⟩ | ⟨-, rfl⟩ <;> cases hk
  | receiveRead hret => rcases hret with ⟨r', rfl, -⟩ | ⟨rfl, -⟩ <;> cases hk
  | receiveInbox y p hp hinbox hret => rcases hret with ⟨r', rfl, -⟩ | ⟨rfl, -⟩ <;> cases hk
  | pendingRead hret => rcases hret with ⟨rfl, -⟩ | ⟨rfl, -⟩ <;> cases hk
  | _ => cases hk

/-- A subscription does not become active again. -/
theorem ThreadStep.subscription_inactive {t : Tid n} {sh sh' : Shared n} {pc pc' : Pc}
    {e : Option (Event n)} (h : ThreadStep t sh pc sh' pc' e) {k : Nat}
    (hk : k < sh.nextSubscription) (hactive : (sh.subscription k).active = false) :
    (sh'.subscription k).active = false := by
  have hset : ∀ (k' : Nat) (sub : Subscription),
      sub.active = (sh.subscription k').active ∨ sub.active = false →
      ((sh.setSubscription k' sub).subscription k).active = false := by
    intro k' sub hsub
    by_cases hkk : k = k'
    · subst hkk
      rcases hsub with hsub | hsub <;> simp [Shared.setSubscription, hsub, hactive]
    · simp [Shared.setSubscription, Function.update_of_ne hkk, hactive]
  cases h with
  | taskMore hg | taskFound hg | subscribeMore hg | subscribeFound hg => cases hg <;> exact hactive
  | newSubscription y =>
      rw [Shared.newSubscription]
      simp [Shared.setSubscription, Function.update_of_ne hk.ne, hactive]
  | clearActive => exact hset _ _ (Or.inr rfl)
  | clearProxy hret => exact hset _ _ (Or.inl rfl)
  | release k' => exact hset _ _ (Or.inl rfl)
  | _ => exact hactive

/-- A thread at the end of a subscription has an inactive one. -/
def EndedInv (s : State n) : Prop :=
  ∀ t k, ended (s.pc t) = some k →
    k < s.shared.nextSubscription ∧ (s.shared.subscription k).active = false

/-- `EndedInv` holds in every state of a run without failing allocations. -/
theorem endedInv_of_run {tr : List (Event n)} {s : State n}
    (h : (machine n capacity hcap).RunIf AllocationsSucceed tr s) : EndedInv s := by
  refine h.induction (I := fun _ s => EndedInv s) (fun t k hk => (by cases hk)) ?_
  intro tr s a s' e hrun hinv hK hnext
  rcases next_cases hnext with ⟨b, pool, t, pc, e', -, -, -, -, hpc, rfl⟩ |
      ⟨t, move, sh, pc, rfl, hf, rfl⟩ | ⟨t, -, rfl⟩
  · refine forall_update (P := fun _ pc => ∀ k, ended pc = some k → k < s.shared.nextSubscription ∧
      (s.shared.subscription k).active = false) ?_ fun t' _ => hinv t'
    intro k hk
    rcases inCall_cases hpc with rfl | ⟨arg, rfl⟩ | rfl | ⟨arg, rfl⟩ <;> cases hk
  · have hstep := threadFunction_step hf (by rintro rfl; exact hK) (by rintro rfl; exact hK)
      (onFailurePath_of_run hrun t)
    have hle := (threadFunction_pointerChange hf).nextSubscription_le
    have hkeep : ∀ t' k, ended (s.pc t') = some k → k < sh.nextSubscription ∧
        (sh.subscription k).active = false := fun t' k hk =>
      ⟨(hinv t' k hk).1.trans_le hle, hstep.subscription_inactive (hinv t' k hk).1 (hinv t' k hk).2⟩
    refine forall_update (P := fun _ pc => ∀ k, ended pc = some k → k < sh.nextSubscription ∧
      (sh.subscription k).active = false) ?_ fun t' _ => hkeep t'
    intro k hk
    rcases threadFunction_ended hf hstep hk with hold | ⟨hactive, huns | hlt⟩
    · exact hkeep t k hold
    · exact ⟨((targetInv_of_run hrun).called t k huns).2.trans_le hle, hactive⟩
    · exact ⟨hlt.trans_le hle, hactive⟩
  · exact hinv

/-- A proxy is released only after an unsubscribe of its subscription has been called. -/
theorem unsubscribing_of_released {tr : List (Event n)} {s : State n}
    (h : (machine n capacity hcap).RunIf AllocationsSucceed tr s)
    (hbound : s.shared.nextSubscribe < 2 ^ 64) {x : Nat} (hx : x < s.shared.nextProxy)
    (hreleased : (s.shared.proxy x).released = true) : Unsubscribing tr x := by
  refine h.induction (I := fun tr s => s.shared.nextSubscribe < 2 ^ 64 → ∀ x,
    x < s.shared.nextProxy → (s.shared.proxy x).released = true → Unsubscribing tr x) ?_ ?_
    hbound x hx hreleased
  · intro _ x hx
    exact absurd hx (Nat.not_lt_zero x)
  · intro tr s a s' e hrun hinv hK hnext hbound x hx hreleased
    have hbefore := (nextSubscribe_le_of_next hrun hK hnext).trans_lt hbound
    obtain ⟨hbroker, -⟩ := listedInv_of_bound hrun hbefore
    rcases next_cases hnext with ⟨b, pool, t, pc, e', -, -, -, -, -, rfl⟩ |
        ⟨t, move, sh, pc, rfl, hf, rfl⟩ | ⟨t, rfl, rfl⟩
    · exact (hinv hbefore x hx hreleased).append
    · have hstep := threadFunction_step hf (by rintro rfl; exact hK) (by rintro rfl; exact hK)
        (onFailurePath_of_run hrun t)
      by_cases hold : x < s.shared.nextProxy
      · cases hlive : (s.shared.proxy x).released with
        | true => exact (hinv hbefore x hold hlive).append
        | false =>
            rcases hstep.released hold hlive with hlive' | ⟨k, thenFree, ch, i, hpc, -⟩
            · rw [show (State.shared _).proxy x = sh.proxy x from rfl, hlive'] at hreleased
              cases hreleased
            · have htarget : targetOf (s.pc t) = some (k, ch, i) := by rw [hpc]; rfl
              obtain ⟨y, hy, -, hfreed⟩ := hbroker.target.target t k ch i htarget
              obtain rfl : x = y := hfreed x (by rw [hpc]; rfl)
              obtain ⟨howned, t', hcall⟩ := owned_of_target hbroker htarget hy
              exact Unsubscribing.append ⟨t', k, hcall, howned⟩
      · -- A proxy that the step has made is not released.
        exfalso
        cases threadFunction_pointerChange hf with
        | newProxy name id ch hsh hpc' he =>
            have hlt : x < s.shared.nextProxy + 1 := by rwa [hsh] at hx
            obtain rfl : x = s.shared.nextProxy := by omega
            rw [hsh] at hreleased
            have hproxy : (s.shared.newProxy id ch).proxy s.shared.nextProxy =
              ⟨id, [], none, ∅, true, false, ch⟩ := Function.update_self ..
            rw [show (State.shared _).proxy _ = (s.shared.newProxy id ch).proxy _ from rfl,
              hproxy] at hreleased
            cases hreleased
        | newSubscription name id y hpc hsh hpc' he => exact hold (by rwa [hsh] at hx)
        | clear k hpc hsh hpc' he => exact hold (by rwa [hsh] at hx)
        | other hpointer hnextS hnextP hhand hcall hload he => exact hold (by rwa [← hnextP])
    · rw [Option.toList_none, List.append_nil]
      exact hinv hbefore x hx hreleased

/-- A thread leaves an unsubscribe at once, when it finds the subscription inactive, or after it
has cleared the pointer. -/
theorem ThreadStep.leave {t : Tid n} {sh sh' : Shared n} {pc pc' : Pc} {e : Option (Event n)}
    (h : ThreadStep t sh pc sh' pc' e) {k : Nat} (hk : MessageBroker.unsubscribing pc = some k) :
    MessageBroker.unsubscribing pc' = some k ∨
      (∃ thenFree, pc = .unsubscribe k thenFree .testActive ∧
        MessageBroker.unsubscribing pc' = none) ∨
      ended pc = some k := by
  cases h with
  | unsubscribeInactive hret =>
      obtain rfl := Option.some.inj hk
      rcases hret with ⟨rfl, -⟩ | ⟨rfl, -⟩ <;> exact Or.inr (Or.inl ⟨_, rfl, rfl⟩)
  | clearProxy hret => exact Or.inr (Or.inr hk)
  | unsubscribeTest | deactivate | unsubscribeInbox | unsubscribeLockChannels | unsubscribeHit
  | unsubscribeMiss | unsubscribeLockChannel | searchMiss | searchHit | freeDeactivate | freeInbox
  | freeRelease | unlink | unsubscribeUnlockChannel | unsubscribeUnlockChannels | clearActive =>
      exact Or.inl hk
  | _ => cases hk

/-- A subscription that was unsubscribed is inactive, or an unsubscribe of it is under way. -/
def UnsubscribedInv (tr : List (Event n)) (s : State n) : Prop :=
  ∀ k, Unsubscribed tr k → k < s.shared.nextSubscription ∧
    ((s.shared.subscription k).active = false ∨ ∃ t, unsubscribing (s.pc t) = some k)

/-- `UnsubscribedInv` holds in every state of a run without failing allocations. -/
theorem unsubscribedInv_of_run {tr : List (Event n)} {s : State n}
    (h : (machine n capacity hcap).RunIf AllocationsSucceed tr s) : UnsubscribedInv tr s := by
  refine h.induction (I := UnsubscribedInv) ?_ ?_
  · rintro k ⟨t, hmem⟩
    cases hmem
  · intro tr s a s' e hrun hinv hK hnext
    rcases next_cases hnext with ⟨b, pool, t, pc, e', -, -, rfl, hold, -, rfl⟩ |
        ⟨t, move, sh, pc, rfl, hf, rfl⟩ | ⟨t, rfl, rfl⟩
    · rintro k ⟨t', hmem⟩
      rcases List.mem_append.mp hmem with hmem | hmem
      · obtain ⟨hlt, hactive | ⟨t₁, ht₁⟩⟩ := hinv k ⟨t', hmem⟩
        · exact ⟨hlt, Or.inl hactive⟩
        · refine ⟨hlt, Or.inr ⟨t₁, ?_⟩⟩
          have hne : t₁ ≠ t := by
            rintro rfl
            rcases inCall_cases hold with hpc | ⟨arg, hpc⟩ | hpc | ⟨arg, hpc⟩ <;>
              rw [hpc] at ht₁ <;> cases ht₁
          simpa only [Function.update_of_ne hne] using ht₁
      · cases e' <;> simp at hmem
    · have hstep := threadFunction_step hf (by rintro rfl; exact hK) (by rintro rfl; exact hK)
        (onFailurePath_of_run hrun t)
      have hle := (threadFunction_pointerChange hf).nextSubscription_le
      rintro k ⟨t', hmem⟩
      rcases List.mem_append.mp hmem with hmem | hmem
      · obtain ⟨hlt, hold⟩ := hinv k ⟨t', hmem⟩
        refine ⟨hlt.trans_le hle, ?_⟩
        rcases hold with hactive | ⟨t₁, ht₁⟩
        · exact Or.inl (hstep.subscription_inactive hlt hactive)
        · by_cases htt : t₁ = t
          · -- the unsubscribe goes on, or it ends with an inactive subscription
            rw [htt] at ht₁
            rcases hstep.leave ht₁ with hpc | ⟨thenFree, hpc, hout⟩ | hend
            · exact Or.inr ⟨t, by simpa only [Function.update_self] using hpc⟩
            · rw [hpc] at hf
              exact Or.inl (hstep.subscription_inactive hlt (inactive_of_return hf hout))
            · exact Or.inl (hstep.subscription_inactive hlt (endedInv_of_run hrun t k hend).2)
          · exact Or.inr ⟨t₁, by simpa only [Function.update_of_ne htt] using ht₁⟩
      · obtain ⟨hremoving, hlt⟩ := hstep.listedStep.call t' k (Option.mem_toList.mp hmem)
        refine ⟨hlt.trans_le hle, Or.inr ⟨t, ?_⟩⟩
        simpa only [Function.update_self] using unsubscribing_of_removing hremoving
    · rw [Option.toList_none, List.append_nil]
      exact hinv

end

end Miez.Proofs.MessageBroker
