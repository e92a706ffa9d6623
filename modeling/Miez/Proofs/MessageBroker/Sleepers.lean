import Miez.Proofs.MessageBroker.Pointers

/-!
# `Miez.Proofs.MessageBroker.Sleepers`: no receiver is lost asleep

`_subscriber_proxy_enqueue` puts a message into the inbox before it locks the inbox mutex, and
then wakes one parked receiver at most. A receiver parks only after it has found the inbox empty.
While a receiver is parked, or about to park, every message in the inbox has a thread that answers
for it: the task that has put it there and not signalled yet, or a receiver that is awake
(`ServedInv`). The invariant is about one proxy as long as it is active: `subscription_unsubscribe`
clears the flag first, and wakes all receivers after that.

`ProxyStep` lists what a step does to the inbox, its mutex and its condition variable. It holds in
every run, with or without failing allocations.
-/

set_option autoImplicit false

namespace Miez.Proofs.MessageBroker

open Miez.Lib
open Miez.MessageBroker
open Miez.ThreadPool (Tid)

section
variable {n : Nat} {capacity : UInt64} {hcap : capacity ≠ 0}

/-! ### Threads at an inbox -/

/-- The task has put its message into the inbox of `x` and has not signalled yet. -/
def unsignalled (x : Nat) : Pc → Prop
  | .publisherTask _ (.lockInbox _ _ y) | .publisherTask _ (.signal _ _ y) => y = x
  | _ => False

/-- The receive is on its way to a test of the inbox of `x` or to its dequeue. A parked receive is
on its way too, once it has been woken up. -/
def onItsWay (x : Nat) : Pc → Prop
  | .receive _ false r =>
      match r with
      | .lock y | .testEmpty y | .parked y | .testActiveExit y | .unlock y | .dequeue y => y = x
      | _ => False
  | _ => False

/-- The receive has found the inbox of `x` empty and goes to sleep. -/
def aboutToPark (x : Nat) : Pc → Prop
  | .receive _ _ (.testActiveLoop y) | .receive _ _ (.condWait y) => y = x
  | _ => False

/-- The thread is parked on the condition variable of `x`, or has just been woken up. -/
def parkedAt (x : Nat) (pc : Pc) : Prop := ∃ k, pc = .receive k false (.parked x)

/-- The thread is between the lock and the unlock of the inbox mutex of `x`, in a task or in a
receive. -/
def holdsInbox (x : Nat) : Pc → Prop
  | .publisherTask _ (.signal _ _ y) | .publisherTask _ (.unlockInbox _ _ y) => y = x
  | .receive _ _ r =>
      match r with
      | .testEmpty y | .testActiveLoop y | .condWait y | .testActiveExit y | .unlockInactive y
      | .unlock y => y = x
      | _ => False
  | _ => False

/-- The program points that are reached only after the proxy `x` has been deactivated. -/
def closing (sh : Shared n) (x : Nat) : Pc → Prop
  | .unsubscribe k _ .lockInbox | .unsubscribe k _ .broadcast | .unsubscribe k _ .unlockInbox =>
      (sh.subscription k).proxy = some x
  | .unsubscribe _ _ (.freeProxy _ _ y f) | .subscribe _ _ (.freeProxy y f) =>
      f ≠ .deactivate ∧ y = x
  | .receive _ _ (.unlockInactive y) => y = x
  | _ => False

/-- The program points of `subscription_try_receive`. -/
def tryPoint : ReceivePc → Bool
  | .testActive | .testProxy | .testProxyActive | .load | .tryEmpty _ | .dequeue _ => true
  | _ => false

/-- The thread answers for a message in the inbox of `x`. -/
def Owes (s : State n) (x : Nat) (t : Tid n) : Prop :=
  unsignalled x (s.pc t) ∨ (onItsWay x (s.pc t) ∧ t ∉ (s.shared.proxy x).inboxCond)

/-! ### Steps that the lists of steps leave open -/

section
variable {t : Tid n} {sh sh' : Shared n} {pc pc' : Pc} {e : Option (Event n)} {x : Nat}

/-- A signal wakes one of the parked threads, or there is none. -/
theorem signal_cases {arg : PublisherTaskArg} {ch i : Nat} {move : Move n}
    (h : publisherTask t arg sh (.signal ch i x) move = some (.step sh' pc' e)) :
    pc' = .publisherTask arg (.unlockInbox ch i x) ∧
    ((∃ r ∈ (sh.proxy x).inboxCond, sh' = sh.setProxy x { sh.proxy x with
        inboxCond := (sh.proxy x).inboxCond.erase r }) ∨
      ((sh.proxy x).inboxCond = ∅ ∧ sh' = sh)) := by
  simp only [publisherTask, deref_eq_step, Option.map_eq_some_iff, Outcome.step.injEq] at h
  obtain ⟨-, sh₁, hsignal, rfl, rfl, -⟩ := h
  refine ⟨rfl, ?_⟩
  cases move with
  | wake r =>
      simp only [Shared.signalInbox, Option.ite_none_right_eq_some, Option.some.injEq] at hsignal
      exact Or.inl ⟨r, hsignal.1, hsignal.2.symm⟩
  | go =>
      simp only [Shared.signalInbox, Option.ite_none_right_eq_some, Option.some.injEq] at hsignal
      exact Or.inr ⟨hsignal.1, hsignal.2.symm⟩
  | _ => cases hsignal

/-- A parked thread wakes up by itself, or it has been woken up and locks the mutex. -/
theorem parked_cases {k : Nat} {tryReceive : Bool} {move : Move n}
    (h : subscriptionReceive t k tryReceive sh (.parked x) move = some (.step sh' pc' e)) :
    (t ∈ (sh.proxy x).inboxCond ∧ pc' = .receive k tryReceive (.parked x) ∧
      sh' = sh.setProxy x { sh.proxy x with inboxCond := (sh.proxy x).inboxCond.erase t }) ∨
    (t ∉ (sh.proxy x).inboxCond ∧ pc' = .receive k tryReceive (.testEmpty x) ∧
      (sh.proxy x).inboxMutex = none ∧
      sh' = sh.setProxy x { sh.proxy x with inboxMutex := some t }) := by
  obtain rfl : move = .go := by cases move <;> simp_all [subscriptionReceive]
  simp only [subscriptionReceive, deref_eq_step] at h
  obtain ⟨-, h⟩ := h
  by_cases hin : t ∈ (sh.proxy x).inboxCond
  · simp only [if_pos hin, Option.some.injEq, Outcome.step.injEq] at h
    exact Or.inl ⟨hin, h.2.1.symm, h.1.symm⟩
  · simp only [if_neg hin, Shared.lockInbox, Option.map_map, Option.map_eq_some_iff,
      lockMutex_eq_some, Function.comp_apply, Outcome.step.injEq] at h
    obtain ⟨m, ⟨hfree, rfl⟩, rfl, rfl, -⟩ := h
    exact Or.inr ⟨hin, rfl, hfree, rfl⟩

/-- A receive leaves without a message only when its proxy is inactive. -/
theorem inactive_of_exit {k : Nat} {tryReceive : Bool} {move : Move n}
    (h : subscriptionReceive t k tryReceive sh (.testActiveExit x) move = some (.step sh' pc' e))
    (hpc : pc' = .receive k tryReceive (.unlockInactive x)) : (sh'.proxy x).active = false := by
  obtain rfl : move = .go := by cases move <;> simp_all [subscriptionReceive]
  simp only [subscriptionReceive, deref_eq_step, Option.some.injEq, Outcome.step.injEq] at h
  obtain ⟨-, rfl, rfl, -⟩ := h
  cases hactive : (sh.proxy x).active with
  | false => rfl
  | true => simp [hactive] at hpc

/-- The critical section of an unsubscribe is on the proxy of its subscription. -/
theorem pointer_of_unsubscribeInbox {k : Nat} {thenFree : Bool} {u : UnsubscribePc}
    {move : Move n} (h : subscriptionUnsubscribe t k thenFree sh u move = some (.step sh' pc' e))
    (hu : u = .lockInbox ∨ u = .broadcast ∨ u = .unlockInbox) :
    ∃ y p, (sh.subscription k).proxy = some y ∧ sh' = sh.setProxy y p ∧
      p.active = (sh.proxy y).active := by
  rcases hu with rfl | rfl | rfl <;>
    obtain rfl : move = .go := by cases move <;> simp_all [subscriptionUnsubscribe]
  · simp only [subscriptionUnsubscribe, derefProxy_eq_step, Shared.lockInbox, Option.map_map,
      Option.map_eq_some_iff, lockMutex_eq_some, Function.comp_apply, Outcome.step.injEq] at h
    obtain ⟨-, y, hy, -, m, ⟨-, rfl⟩, rfl, -, -⟩ := h
    exact ⟨y, _, hy, rfl, rfl⟩
  · simp only [subscriptionUnsubscribe, derefProxy_eq_step, Option.some.injEq,
      Outcome.step.injEq] at h
    obtain ⟨-, y, hy, -, rfl, -, -⟩ := h
    exact ⟨y, _, hy, rfl, rfl⟩
  · simp only [subscriptionUnsubscribe, derefProxy_eq_step, Option.some.injEq,
      Outcome.step.injEq] at h
    obtain ⟨-, y, hy, -, rfl, -, -⟩ := h
    exact ⟨y, _, hy, rfl, rfl⟩

end

/-! ### After the deactivation -/

section
variable {t : Tid n} {sh sh' : Shared n} {pc pc' : Pc} {e : Option (Event n)} {x : Nat}

/-- A step of a receive that comes to the exit for inactive proxies. -/
theorem receive_closing {k : Nat} {tryReceive : Bool} {r : ReceivePc} {move : Move n}
    (h : subscriptionReceive t k tryReceive sh r move = some (.step sh' pc' e))
    (hin : closing sh' x pc') : (sh'.proxy x).active = false := by
  cases (subscriptionReceive_receiveStep h).2 with
  | test r r' hr => rcases hr with ⟨-, rfl⟩ | ⟨-, rfl⟩ | ⟨-, rfl⟩ <;> exact absurd hin id
  | load y hy => cases tryReceive <;> exact absurd hin id
  | exitInactive y =>
      obtain rfl : y = x := hin
      exact inactive_of_exit h rfl
  | _ => exact absurd hin id

/-- A deactivated proxy is inactive. -/
theorem deactivate_active (sh : Shared n) (x : Nat) :
    ((sh.deactivate x).proxy x).active = false := by
  rw [Shared.deactivate, setProxy_proxy, if_pos rfl]

/-- A step comes to the program points after a deactivation by the deactivation. -/
theorem ThreadStep.closing (h : ThreadStep t sh pc sh' pc' e) (hrec : inReceive pc = false)
    (hin : closing sh' x pc') :
    MessageBroker.closing sh x pc ∨ (sh'.proxy x).active = false := by
  cases h with
  | deactivate y hy =>
      obtain rfl : y = x := Option.some.inj (hy.symm.trans hin)
      exact Or.inr (deactivate_active sh y)
  | unsubscribeTest u u' hu => rcases hu with ⟨-, rfl⟩ | ⟨-, rfl | rfl⟩ <;> exact absurd hin id
  | unsubscribeInbox y p u u' hp hinbox hu =>
      rcases hu with ⟨rfl, rfl⟩ | ⟨rfl, rfl⟩ | ⟨rfl, rfl⟩
      · exact Or.inl hin
      · exact Or.inl hin
      · exact absurd hin id
  | searchHit ch i y hy hid => exact absurd rfl hin.1
  | freeDeactivate ch i y =>
      obtain rfl : y = x := hin.2
      exact Or.inr (deactivate_active sh y)
  | freeInbox ch i y p f f' hp hinbox hf =>
      refine Or.inl ⟨?_, hin.2⟩
      rcases hf with ⟨rfl, -⟩ | ⟨rfl, -⟩ | ⟨rfl, -⟩ <;> exact fun h => (by cases h)
  | unsubscribeInactive hret | clearProxy hret =>
      rcases hret with ⟨rfl, -⟩ | ⟨rfl, -⟩ <;> exact absurd hin id
  | receiveRead hret => cases hrec
  | receiveInbox y p hp hinbox hret => cases hrec
  | pendingRead hret => rcases hret with ⟨rfl, -⟩ | ⟨rfl, -⟩ <;> exact absurd hin id
  | _ => exact absurd hin id

/-- The same for a step of a failing call. -/
theorem FailStep.closing (h : FailStep t sh pc sh' pc' e) (hin : closing sh' x pc') :
    MessageBroker.closing sh x pc ∨ (sh'.proxy x).active = false := by
  cases h with
  | unlockFailed ch y => exact absurd rfl hin.1
  | freeDeactivate y =>
      obtain rfl : y = x := hin.2
      exact Or.inr (deactivate_active sh y)
  | freeInbox y p f f' hp hinbox hf =>
      refine Or.inl ⟨?_, hin.2⟩
      rcases hf with ⟨rfl, -⟩ | ⟨rfl, -⟩ | ⟨rfl, -⟩ <;> exact fun h => (by cases h)
  | _ => exact absurd hin id

/-- How a thread comes to the program points after a deactivation. -/
theorem threadFunction_closing {move : Move n}
    (h : threadFunction t sh pc move = some (.step sh' pc' e)) (hin : closing sh' x pc') :
    closing sh x pc ∨ (sh'.proxy x).active = false := by
  cases hrec : inReceive pc with
  | true =>
      cases pc with
      | receive k tryReceive r => exact Or.inr (receive_closing h hin)
      | _ => cases hrec
  | false =>
      rcases threadFunction_cases h with hstep | ⟨hstep, -⟩
      · exact hstep.closing hrec hin
      · exact hstep.closing hin

/-- No step makes an inactive proxy active, unless it makes the proxy. -/
theorem threadFunction_inactive {move : Move n}
    (h : threadFunction t sh pc move = some (.step sh' pc' e))
    (hx : ∀ id ch, sh' = sh.newProxy id ch → x ≠ sh.nextProxy) (hactive : (sh.proxy x).active = false) : (sh'.proxy x).active = false := by
  rcases threadFunction_cases h with hstep | ⟨hstep, -⟩
  · exact hstep.inactive hx hactive
  · exact hstep.inactive hactive

end

/-- The program points after a deactivation in a run. -/
structure ClosingInv (s : State n) : Prop where
  called : ∀ t k, unsubscribing (s.pc t) = some k → k < s.shared.nextSubscription
  inactive : ∀ t x, closing s.shared x (s.pc t) → (s.shared.proxy x).active = false

/-- A program point of `inCall` is not after a deactivation. -/
theorem not_closing_of_inCall {sh : Shared n} {x : Nat} {pc : Pc} (h : inCall pc = true) :
    ¬ closing sh x pc := by
  rcases inCall_cases h with rfl | ⟨arg, rfl⟩ | rfl | ⟨arg, rfl⟩ <;> exact id

/-- A program point after a deactivation leads to a proxy that has been made. -/
theorem lt_of_closing {tr : List (Event n)} {s : State n} (hbox : InboxInv tr s) {x : Nat}
    {t : Tid n} (h : closing s.shared x (s.pc t)) : x < s.shared.nextProxy := by
  generalize hpc : s.pc t = pc at h
  unfold closing at h
  split at h
  · exact hbox.known.pointer _ x h
  · exact hbox.known.pointer _ x h
  · exact hbox.known.pointer _ x h
  · exact hbox.pc t x (by rw [hpc, ← h.2]; rfl)
  · exact hbox.pc t x (by rw [hpc, ← h.2]; rfl)
  · exact hbox.pc t x (by rw [hpc, ← h]; rfl)
  · exact absurd h id

/-- The pointers of the known subscriptions are kept or cleared. -/
theorem PointerChange.pointer {t : Tid n} {sh sh' : Shared n} {pc pc' : Pc}
    {e : Option (Event n)} (h : PointerChange t sh pc sh' pc' e) {k x : Nat}
    (hk : k < sh.nextSubscription) (hx : (sh'.subscription k).proxy = some x) :
    (sh.subscription k).proxy = some x := by
  cases h with
  | newProxy name id ch hsh hpc' he =>
      rw [hsh] at hx
      exact hx
  | newSubscription name id y hpc hsh hpc' he =>
      rw [hsh] at hx
      have hold : (sh.newSubscription id name y).subscription k = sh.subscription k :=
        Function.update_of_ne hk.ne ..
      rwa [hold] at hx
  | clear k' hpc hsh hpc' he =>
      rw [hsh] at hx
      by_cases hkk : k = k'
      · subst hkk
        simp [Shared.setSubscription] at hx
      · rwa [show (sh.setSubscription k' _).subscription k = sh.subscription k from
          Function.update_of_ne hkk ..] at hx
  | other hpointer _ _ _ _ _ _ => rwa [hpointer] at hx

/-- An unsubscribe begins with its call. -/
theorem PointerChange.calls {t : Tid n} {sh sh' : Shared n} {pc pc' : Pc}
    {e : Option (Event n)} (h : PointerChange t sh pc sh' pc' e) {k : Nat}
    (hk : unsubscribing pc' = some k) :
    unsubscribing pc = some k ∨ e = some (.unsubscribeCall t k) := by
  cases h with
  | newProxy name id ch hsh hpc' he => rw [hpc'] at hk; cases hk
  | newSubscription name id y hpc hsh hpc' he => rw [hpc'] at hk; cases hk
  | clear k' hpc hsh hpc' he => rcases hpc' with rfl | rfl <;> cases hk
  | other _ _ _ _ hcall _ _ => exact hcall k hk

/-- The number of subscriptions does not go down. -/
theorem PointerChange.nextSubscription_le {t : Tid n} {sh sh' : Shared n} {pc pc' : Pc}
    {e : Option (Event n)} (h : PointerChange t sh pc sh' pc' e) :
    sh.nextSubscription ≤ sh'.nextSubscription := by
  cases h with
  | newProxy name id ch hsh hpc' he => rw [hsh]; exact le_rfl
  | newSubscription name id y hpc hsh hpc' he => rw [hsh]; exact Nat.le_succ _
  | clear k' hpc hsh hpc' he => rw [hsh]; exact le_rfl
  | other _ hnext _ _ _ _ _ => exact hnext.ge

/-- `ClosingInv` holds in every state of a run. -/
theorem closingInv_of_run {K : State n → Action n → Prop} {tr : List (Event n)} {s : State n}
    (h : (machine n capacity hcap).RunIf K tr s) : ClosingInv s := by
  refine h.induction (I := fun _ s => ClosingInv s) ?_ ?_
  · exact ⟨fun t k hk => (by cases hk), fun t x hx => absurd hx id⟩
  · intro tr s a s' e hrun hinv hK hnext
    have hbox := inboxInv_of_run hrun
    rcases next_cases hnext with ⟨b, pool, t, pc, e', -, -, -, -, hpc, rfl⟩ |
        ⟨t, move, sh, pc, rfl, hf, rfl⟩ | ⟨t, -, rfl⟩
    · refine ⟨?_, ?_⟩
      · refine forall_update (P := fun _ pc => ∀ k, unsubscribing pc = some k →
          k < s.shared.nextSubscription) ?_ fun t' _ => hinv.called t'
        intro k hk
        rcases inCall_cases hpc with rfl | ⟨arg, rfl⟩ | rfl | ⟨arg, rfl⟩ <;> cases hk
      · exact forall_update (P := fun _ pc => ∀ x, closing s.shared x pc →
          (s.shared.proxy x).active = false)
          (fun x hx => absurd hx (not_closing_of_inCall hpc)) fun t' _ => hinv.inactive t'
    · have hchange := threadFunction_pointerChange hf
      refine ⟨?_, ?_⟩
      · refine forall_update (P := fun _ pc => ∀ k, unsubscribing pc = some k →
          k < sh.nextSubscription) ?_
          fun t' _ k hk => (hinv.called t' k hk).trans_le hchange.nextSubscription_le
        intro k hk
        have hlt : k < s.shared.nextSubscription := by
          rcases hchange.calls hk with hold | hcall
          · exact hinv.called t k hold
          · rw [hcall] at hnext
            have hcalled : next s (.thread t move) = some (_, some (.unsubscribeCall t k)) := hnext
            exact (next_unsubscribeCall hcalled).2.2
        exact hlt.trans_le hchange.nextSubscription_le
      · refine forall_update (P := fun _ pc => ∀ x, closing sh x pc →
          (sh.proxy x).active = false) ?_ ?_
        · intro x hx
          rcases threadFunction_closing hf hx with hold | hnew
          · exact threadFunction_inactive hf
              (fun _ _ _ => (lt_of_closing hbox hold).ne) (hinv.inactive t x hold)
          · exact hnew
        · intro t' _ x hx
          have hold : closing s.shared x (s.pc t') := by
            have hcalled := hinv.called t'
            generalize s.pc t' = pc' at hx hcalled
            unfold closing at hx ⊢
            split at hx
            · exact hchange.pointer (hcalled _ rfl) hx
            · exact hchange.pointer (hcalled _ rfl) hx
            · exact hchange.pointer (hcalled _ rfl) hx
            · exact hx
            · exact hx
            · exact hx
            · exact absurd hx id
          exact threadFunction_inactive hf
              (fun _ _ _ => (lt_of_closing hbox hold).ne) (hinv.inactive t' x hold)
    · exact ⟨hinv.called, hinv.inactive⟩

/-! ### What a step does to one inbox -/

/-- What a step of the thread `t` does to the messages in the inbox of `x` and to the threads
that sleep there or answer for a message. -/
inductive CountStep (t : Tid n) (sh : Shared n) (pc : Pc) (sh' : Shared n) (pc' : Pc) (x : Nat) :
    Prop where
  | quiet (hinbox : (sh'.proxy x).inbox = (sh.proxy x).inbox)
      (hcond : (sh'.proxy x).inboxCond = (sh.proxy x).inboxCond)
      (hstay : t ∉ (sh.proxy x).inboxCond ∨ ¬ parkedAt x pc)
      (hsignal : unsignalled x pc → unsignalled x pc') (hway : onItsWay x pc → onItsWay x pc')
      (hpark : aboutToPark x pc' → aboutToPark x pc)
  | put (msg : Message) (hinbox : (sh'.proxy x).inbox = (sh.proxy x).inbox ++ [msg])
      (hcond : (sh'.proxy x).inboxCond = (sh.proxy x).inboxCond)
      (hsignal : ¬ unsignalled x pc) (hway : ¬ onItsWay x pc) (hnew : unsignalled x pc')
      (hpark : ¬ aboutToPark x pc')
  | wake (r : Tid n) (hr : r ∈ (sh.proxy x).inboxCond)
      (hinbox : (sh'.proxy x).inbox = (sh.proxy x).inbox)
      (hcond : (sh'.proxy x).inboxCond = (sh.proxy x).inboxCond.erase r)
      (hway : ¬ onItsWay x pc) (hpark : ¬ aboutToPark x pc')
  | noWake (hempty : (sh.proxy x).inboxCond = ∅) (hcond : (sh'.proxy x).inboxCond = ∅)
      (hhold : holdsInbox x pc) (hway : ¬ onItsWay x pc) (hbefore : ¬ aboutToPark x pc)
      (hpark : ¬ aboutToPark x pc')
  | testEmpty (hinbox : (sh'.proxy x).inbox = [])
      (hcond : (sh'.proxy x).inboxCond = (sh.proxy x).inboxCond) (hstay : ¬ parkedAt x pc)
  | park (hinbox : (sh'.proxy x).inbox = (sh.proxy x).inbox)
      (hcond : (sh'.proxy x).inboxCond = insert t (sh.proxy x).inboxCond)
      (hpark : aboutToPark x pc) (hparked : parkedAt x pc')
      (hsignal : ¬ unsignalled x pc) (hway : ¬ onItsWay x pc) (hdone : ¬ aboutToPark x pc')
  | wakeup (hinbox : (sh'.proxy x).inbox = (sh.proxy x).inbox)
      (hcond : (sh'.proxy x).inboxCond = (sh.proxy x).inboxCond.erase t) (hpc : pc' = pc)
  | take (hinbox : (sh'.proxy x).inbox = (sh.proxy x).inbox.dequeue.2)
      (hcond : (sh'.proxy x).inboxCond = (sh.proxy x).inboxCond) (hstay : ¬ parkedAt x pc)
      (hpark : ¬ aboutToPark x pc')

/-- What a step does to the mutex, the condition variable and the messages of the inbox of `x`. -/
structure ProxyStep (t : Tid n) (sh : Shared n) (pc : Pc) (sh' : Shared n) (pc' : Pc) (x : Nat) :
    Prop where
  lock : LockStep t (holdsInbox x pc) (holdsInbox x pc') (sh.proxy x).inboxMutex
    (sh'.proxy x).inboxMutex
  count : CountStep t sh pc sh' pc' x

/-- The thread does nothing at the inbox of `x`. -/
structure Away (x : Nat) (pc : Pc) : Prop where
  unsignalled : ¬ unsignalled x pc
  onItsWay : ¬ onItsWay x pc
  aboutToPark : ¬ aboutToPark x pc
  holdsInbox : ¬ holdsInbox x pc

section
variable {t : Tid n} {sh sh' : Shared n} {pc pc' : Pc} {e : Option (Event n)} {x : Nat}

/-- A parked receive is on its way, once it has been woken up. -/
theorem onItsWay_of_parkedAt (h : parkedAt x pc) : onItsWay x pc := by
  obtain ⟨k, rfl⟩ := h
  rfl

/-- A thread without a pointer to `x` does nothing at its inbox. -/
theorem away_of_proxyOf (h : proxyOf pc ≠ some x) : Away x pc := by
  cases pc with
  | publisherTask arg p =>
      cases p with
      | lockInbox ch i y => exact ⟨fun hy => h (congrArg some hy), id, id, id⟩
      | signal ch i y => exact ⟨fun hy => h (congrArg some hy), id, id, fun hy => h (congrArg some hy)⟩
      | unlockInbox ch i y => exact ⟨id, id, id, fun hy => h (congrArg some hy)⟩
      | _ => exact ⟨id, id, id, id⟩
  | receive k tryReceive r =>
      have hne : ∀ y, receiveProxy r = some y → y ≠ x := by
        rintro y hy rfl
        exact h hy
      cases r with
      | testActive | testProxy | testProxyActive | load =>
          cases tryReceive <;> exact ⟨id, id, id, id⟩
      | testActiveLoop y | condWait y =>
          cases tryReceive <;> exact ⟨id, id, hne y rfl, hne y rfl⟩
      | tryEmpty y => cases tryReceive <;> exact ⟨id, id, id, id⟩
      | unlockInactive y => cases tryReceive <;> exact ⟨id, id, id, hne y rfl⟩
      | lock y | parked y | dequeue y =>
          cases tryReceive
          · exact ⟨id, hne y rfl, id, id⟩
          · exact ⟨id, id, id, id⟩
      | testEmpty y | testActiveExit y | unlock y =>
          cases tryReceive
          · exact ⟨id, hne y rfl, id, hne y rfl⟩
          · exact ⟨id, id, id, hne y rfl⟩
  | _ => exact ⟨id, id, id, id⟩

/-- A step by a thread that does nothing at the inbox of `x` and does not come into its critical
section. -/
theorem proxyStep_of_away (hproxy : sh'.proxy x = sh.proxy x) (hold : Away x pc)
    (hhold : ¬ holdsInbox x pc') (hpark : ¬ aboutToPark x pc') : ProxyStep t sh pc sh' pc' x :=
  ⟨.keep (by rw [hproxy]) (iff_of_false hhold hold.holdsInbox),
    .quiet (by rw [hproxy]) (by rw [hproxy])
      (Or.inr fun h => hold.onItsWay (onItsWay_of_parkedAt h))
      (fun h => absurd h hold.unsignalled) (fun h => absurd h hold.onItsWay)
      fun h => absurd h hpark⟩

/-- A write to another proxy. -/
theorem setProxy_of_ne {y : Nat} (hne : x ≠ y) (p : SubscriberProxy n) :
    (sh.setProxy y p).proxy x = sh.proxy x := by
  rw [setProxy_proxy, if_neg hne]

/-- A receive without a pointer to `x` can load one. -/
theorem ReceiveStep.proxyStep_of_away {k : Nat} {tryReceive : Bool} {r : ReceivePc}
    (h : ReceiveStep t k tryReceive sh r sh' pc' e) (hr : receiveProxy r ≠ some x) :
    ProxyStep t sh (.receive k tryReceive r) sh' pc' x := by
  have hkeep : sh'.proxy x = sh.proxy x → proxyOf pc' ≠ some x →
      ProxyStep t sh (.receive k tryReceive r) sh' pc' x := fun hproxy hpc' =>
    MessageBroker.proxyStep_of_away hproxy (away_of_proxyOf hr) (away_of_proxyOf hpc').holdsInbox
      (away_of_proxyOf hpc').aboutToPark
  have hother : ∀ {y}, some y ≠ some x → x ≠ y := fun hne hy => hne (congrArg some hy.symm)
  cases h with
  | test r r' hr' =>
      refine hkeep rfl ?_
      rcases hr' with ⟨-, rfl⟩ | ⟨-, rfl⟩ | ⟨-, rfl⟩ <;> exact fun h => (by cases h)
  | failed r hr' => exact hkeep rfl fun h => (by cases h)
  | load y hy =>
      refine MessageBroker.proxyStep_of_away rfl (away_of_proxyOf hr) ?_ ?_ <;>
        cases tryReceive <;> exact id
  | lock r y hr' hfree =>
      rcases hr' with rfl | rfl <;> exact hkeep (setProxy_of_ne (hother hr) _) hr
  | unlockInactive y => exact hkeep (setProxy_of_ne (hother hr) _) fun h => (by cases h)
  | got y => exact hkeep (setProxy_of_ne (hother hr) _) fun h => (by cases h)
  | condWait y | wakeup y | unlock y => exact hkeep (setProxy_of_ne (hother hr) _) hr
  | _ => exact hkeep rfl hr

/-- A proxy after a write to it. -/
theorem setProxy_self (p : SubscriberProxy n) : (sh.setProxy x p).proxy x = p := by
  rw [setProxy_proxy, if_pos rfl]

/-- A program point of a receive other than the one where it sleeps. -/
theorem not_parkedAt {k : Nat} {tryReceive : Bool} {r : ReceivePc} (hr : r ≠ .parked x) :
    ¬ parkedAt x (.receive k tryReceive r) := by
  rintro ⟨k', hk'⟩
  exact hr (Pc.receive.inj hk').2.2

/-- A step inside the critical section of the inbox of `x` that only reads. -/
theorem proxyStep_of_inside {k : Nat} {r r' : ReceivePc} (hr : r ≠ .parked x)
    (hold : holdsInbox x (.receive k false r)) (hnew : holdsInbox x (.receive k false r'))
    (hway : onItsWay x (.receive k false r) → onItsWay x (.receive k false r'))
    (hpark : aboutToPark x (.receive k false r') → aboutToPark x (.receive k false r)) :
    ProxyStep t sh (.receive k false r) sh (.receive k false r') x :=
  ⟨.keep rfl (iff_of_true hnew hold),
    .quiet rfl rfl (Or.inr (not_parkedAt hr)) (fun h => absurd h id) hway hpark⟩

/-- The last step of a receive takes a message out of the inbox of `x`. -/
theorem proxyStep_of_take {k : Nat} {tryReceive : Bool} :
    ProxyStep t sh (.receive k tryReceive (.dequeue x))
      (sh.setProxy x { sh.proxy x with inbox := (sh.proxy x).inbox.dequeue.2 }) .idle x :=
  ⟨.keep (by rw [setProxy_self]) Iff.rfl,
    .take (by rw [setProxy_self]) (by rw [setProxy_self]) (not_parkedAt (by simp)) id⟩

/-- What a blocking receive with a pointer to `x` does to its inbox. -/
theorem receive_proxyStep {k : Nat} {r : ReceivePc} {move : Move n}
    (h : subscriptionReceive t k false sh r move = some (.step sh' pc' e))
    (hr : receiveProxy r = some x) (hactive : (sh'.proxy x).active = true) :
    ProxyStep t sh (.receive k false r) sh' pc' x := by
  cases (subscriptionReceive_receiveStep h).2 with
  | test r r' hr' => rcases hr' with ⟨rfl, -⟩ | ⟨rfl, -⟩ | ⟨rfl, -⟩ <;> cases hr
  | failed r hr' =>
      rcases hr' with rfl | rfl | rfl | ⟨y, rfl⟩
      · cases hr
      · cases hr
      · cases hr
      · exact proxyStep_of_away rfl ⟨id, id, id, id⟩ id id
  | load y hy => cases hr
  | lock r y hr' hfree =>
      rcases hr' with rfl | rfl
      · obtain rfl : y = x := Option.some.inj hr
        exact ⟨.acquire hfree (by rw [setProxy_self]) id rfl,
          .quiet (by rw [setProxy_self]) (by rw [setProxy_self]) (Or.inr (not_parkedAt (by simp)))
            (fun h => absurd h id) id fun h => absurd h id⟩
      · obtain rfl : y = x := Option.some.inj hr
        -- The thread can lock the mutex only after it has been woken up.
        have hawake : t ∉ (sh.proxy y).inboxCond := by
          rcases parked_cases h with ⟨-, hpc, -⟩ | ⟨hawake, -⟩
          · cases hpc
          · exact hawake
        exact ⟨.acquire hfree (by rw [setProxy_self]) id rfl,
          .quiet (by rw [setProxy_self]) (by rw [setProxy_self]) (Or.inl hawake)
            (fun h => absurd h id) id fun h => absurd h id⟩
  | testEmpty y hempty =>
      obtain rfl : y = x := Option.some.inj hr
      exact ⟨.keep rfl (iff_of_true rfl rfl), .testEmpty hempty rfl (not_parkedAt (by simp))⟩
  | testNonempty y hsome =>
      obtain rfl : y = x := Option.some.inj hr
      exact proxyStep_of_inside (by simp) rfl rfl id fun h => absurd h id
  | loopActive y =>
      obtain rfl : y = x := Option.some.inj hr
      exact proxyStep_of_inside (by simp) rfl rfl (fun h => absurd h id) id
  | loopInactive y hinactive =>
      obtain rfl : y = x := Option.some.inj hr
      rw [hinactive] at hactive
      cases hactive
  | condWait y =>
      obtain rfl : y = x := Option.some.inj hr
      exact ⟨.release (by rw [setProxy_self]) rfl id,
        .park (by rw [setProxy_self]) (by rw [setProxy_self]) rfl ⟨k, rfl⟩ id id id⟩
  | wakeup y =>
      obtain rfl : y = x := Option.some.inj hr
      exact ⟨.keep (by rw [setProxy_self]) Iff.rfl,
        .wakeup (by rw [setProxy_self]) (by rw [setProxy_self]) rfl⟩
  | exitActive y hactive =>
      obtain rfl : y = x := Option.some.inj hr
      exact proxyStep_of_inside (by simp) rfl rfl id id
  | exitInactive y =>
      obtain rfl : y = x := Option.some.inj hr
      rw [inactive_of_exit h rfl] at hactive
      cases hactive
  | unlockInactive y =>
      obtain rfl : y = x := Option.some.inj hr
      exact ⟨.release (by rw [Shared.unlockInbox, setProxy_self]) rfl id,
        .quiet (by rw [Shared.unlockInbox, setProxy_self])
          (by rw [Shared.unlockInbox, setProxy_self]) (Or.inr (not_parkedAt (by simp)))
          (fun h => absurd h id) (fun h => absurd h id) fun h => absurd h id⟩
  | unlock y =>
      obtain rfl : y = x := Option.some.inj hr
      exact ⟨.release (by rw [Shared.unlockInbox, setProxy_self]) rfl id,
        .quiet (by rw [Shared.unlockInbox, setProxy_self])
          (by rw [Shared.unlockInbox, setProxy_self]) (Or.inr (not_parkedAt (by simp)))
          (fun h => absurd h id) id fun h => absurd h id⟩
  | tryNonempty y hsome => exact proxyStep_of_away rfl ⟨id, id, id, id⟩ id id
  | got y =>
      obtain rfl : y = x := Option.some.inj hr
      exact proxyStep_of_take

/-- What `subscription_try_receive` does to the inbox of `x`. -/
theorem tryReceive_proxyStep {k : Nat} {r : ReceivePc}
    (h : ReceiveStep t k true sh r sh' pc' e) (hr : receiveProxy r = some x)
    (htry : tryPoint r = true) : ProxyStep t sh (.receive k true r) sh' pc' x := by
  cases h with
  | failed r hr' =>
      rcases hr' with rfl | rfl | rfl | ⟨y, rfl⟩
      · cases hr
      · cases hr
      · cases hr
      · exact proxyStep_of_away rfl ⟨id, id, id, id⟩ id id
  | test r r' hr' => rcases hr' with ⟨rfl, -⟩ | ⟨rfl, -⟩ | ⟨rfl, -⟩ <;> cases hr
  | lock r y hr' hfree => rcases hr' with rfl | rfl <;> cases htry
  | load y hy => cases hr
  | tryNonempty y hsome => exact proxyStep_of_away rfl ⟨id, id, id, id⟩ id id
  | got y =>
      obtain rfl : y = x := Option.some.inj hr
      exact proxyStep_of_take
  | _ => cases htry

/-- What a step of a task does to the inbox of `x`. -/
theorem task_proxyStep {arg : PublisherTaskArg} {p : PublisherTaskPc} {move : Move n}
    (h : publisherTask t arg sh p move = some (.step sh' pc' e))
    (hstep : ThreadStep t sh (.publisherTask arg p) sh' pc' e) :
    ProxyStep t sh (.publisherTask arg p) sh' pc' x := by
  have hstay : ∀ {q}, ¬ parkedAt x (.publisherTask arg q) := by
    rintro q ⟨k, hk⟩
    cases hk
  cases hstep with
  | taskMore hg | taskFound hg =>
      exact proxyStep_of_away (by rw [hg.proxy.1]) ⟨id, id, id, id⟩ id id
  | put ch i y =>
      by_cases hxy : x = y
      · subst hxy
        exact ⟨.keep (by rw [setProxy_self]) Iff.rfl,
          .put arg.message (by rw [setProxy_self]) (by rw [setProxy_self]) id id rfl id⟩
      · exact proxyStep_of_away (setProxy_of_ne hxy _) ⟨id, id, id, id⟩ id id
  | taskLockInbox ch i y hfree =>
      by_cases hxy : x = y
      · subst hxy
        exact ⟨.acquire hfree (by rw [setProxy_self]) id rfl,
          .quiet (by rw [setProxy_self]) (by rw [setProxy_self]) (Or.inr hstay) id id id⟩
      · exact proxyStep_of_away (setProxy_of_ne hxy _) ⟨Ne.symm hxy, id, id, id⟩ (Ne.symm hxy) id
  | taskSignal ch i y waiting =>
      by_cases hxy : x = y
      · subst hxy
        have hpc : holdsInbox x (.publisherTask arg (.signal ch i x)) := rfl
        obtain ⟨-, ⟨r, hr, hsh⟩ | ⟨hempty, hsh⟩⟩ := signal_cases h
        · rw [hsh]
          exact ⟨.keep (by rw [setProxy_self]) (iff_of_true rfl hpc),
            .wake r hr (by rw [setProxy_self]) (by rw [setProxy_self]) id id⟩
        · rw [hsh]
          exact ⟨.keep rfl (iff_of_true rfl hpc), .noWake hempty hempty hpc id id id⟩
      · exact proxyStep_of_away (setProxy_of_ne hxy _) ⟨Ne.symm hxy, id, id, Ne.symm hxy⟩
          (Ne.symm hxy) id
  | taskUnlockInbox ch i y =>
      by_cases hxy : x = y
      · subst hxy
        exact ⟨.release (by rw [setProxy_self]) rfl id,
          .quiet (by rw [setProxy_self]) (by rw [setProxy_self]) (Or.inr hstay) id id id⟩
      · exact proxyStep_of_away (setProxy_of_ne hxy _) ⟨id, id, id, Ne.symm hxy⟩ id id
  | _ => exact proxyStep_of_away rfl ⟨id, id, id, id⟩ id id

/-- A write to a proxy that is not `x`, since `x` is active after it. -/
theorem proxyStep_of_active {y : Nat} {p : SubscriberProxy n} (hold : Away x pc)
    (hnew : Away x pc') (hactive : ((sh.setProxy y p).proxy x).active = true)
    (hp : x = y → p.active = false) : ProxyStep t sh pc (sh.setProxy y p) pc' x := by
  by_cases hxy : x = y
  · subst hxy
    rw [setProxy_self, hp rfl] at hactive
    cases hactive
  · exact proxyStep_of_away (setProxy_of_ne hxy p) hold hnew.holdsInbox hnew.aboutToPark

/-- What a step without a failing allocation does to the inbox of an active proxy. -/
theorem threadStep_proxyStep {move : Move n}
    (h : threadFunction t sh pc move = some (.step sh' pc' e))
    (hstep : ThreadStep t sh pc sh' pc' e) (hrec : inReceive pc = false)
    (hclosing : closing sh x pc → (sh.proxy x).active = false) (hx : x ≠ sh.nextProxy)
    (hactive : (sh'.proxy x).active = true) : ProxyStep t sh pc sh' pc' x := by
  cases pc with
  | publisherTask arg p => exact task_proxyStep h hstep
  | receive k tryReceive r => cases hrec
  | unsubscribe k thenFree u =>
      have hout : ∀ u, Away x (.unsubscribe k thenFree u) := fun u => ⟨id, id, id, id⟩
      cases hstep with
      | deactivate y hy => exact proxyStep_of_active (hout _) (hout _) hactive fun _ => rfl
      | unsubscribeInbox y p u u' hp hinbox hu =>
          have hcrit : u = .lockInbox ∨ u = .broadcast ∨ u = .unlockInbox :=
            hu.imp And.left (Or.imp And.left And.left)
          obtain ⟨z, q, hz, hsh, hq⟩ := pointer_of_unsubscribeInbox h hcrit
          rw [hsh] at hactive ⊢
          refine proxyStep_of_active (hout _) (hout _) hactive ?_
          rintro rfl
          rw [hq]
          refine hclosing ?_
          rcases hcrit with rfl | rfl | rfl <;> exact hz
      | freeDeactivate ch i y => exact proxyStep_of_active (hout _) (hout _) hactive fun _ => rfl
      | freeInbox ch i y p f f' hp hinbox hf =>
          refine proxyStep_of_active (hout _) (hout _) hactive ?_
          rintro rfl
          rw [hp.active]
          refine hclosing ⟨?_, rfl⟩
          rcases hf with ⟨rfl, -⟩ | ⟨rfl, -⟩ | ⟨rfl, -⟩ <;> exact fun h => (by cases h)
      | freeRelease ch i y =>
          refine proxyStep_of_active (hout _) (hout _) hactive ?_
          rintro rfl
          exact hclosing ⟨fun h => (by cases h), rfl⟩
      | unsubscribeInactive hret | clearProxy hret =>
          rcases hret with ⟨rfl, -⟩ | ⟨rfl, -⟩ <;> exact proxyStep_of_away rfl (hout _) id id
      | _ => exact proxyStep_of_away rfl (hout _) id id
  | subscribe name id p =>
      have hout : ∀ p, Away x (.subscribe name id p) := fun p =>
        ⟨fun h => h, fun h => h, fun h => h, fun h => h⟩
      cases hstep with
      | subscribeMore hg | subscribeFound hg =>
          exact proxyStep_of_away (by rw [hg.proxy.1]) (hout _) (fun h => h) fun h => h
      | newProxy ch =>
          exact proxyStep_of_away (Function.update_of_ne hx ..) (hout _) (fun h => h) fun h => h
      | _ => exact proxyStep_of_away rfl (hout _) (fun h => h) fun h => h
  | pendingCount k second =>
      cases hstep with
      | pendingRead hret =>
          rcases hret with ⟨rfl, -⟩ | ⟨rfl, -⟩ <;>
            exact proxyStep_of_away rfl ⟨id, id, id, id⟩ id id
  | _ => cases hstep <;> exact proxyStep_of_away rfl ⟨id, id, id, id⟩ id id

/-- What a step of a failing call does to the inbox of an active proxy. -/
theorem FailStep.proxyStep (h : FailStep t sh pc sh' pc' e)
    (hclosing : MessageBroker.closing sh x pc → (sh.proxy x).active = false)
    (hactive : (sh'.proxy x).active = true) : ProxyStep t sh pc sh' pc' x := by
  cases h with
  | taskMore hg | taskFailed hg | subscribeMore hg | subscribeFailed hg =>
      exact proxyStep_of_away (by rw [hg.proxy.1]) ⟨id, id, id, id⟩ id id
  | skip ch i y q hq => rcases hq with rfl | rfl <;> exact proxyStep_of_away rfl ⟨id, id, id, id⟩ id id
  | freeDeactivate y =>
      exact proxyStep_of_active ⟨id, id, id, id⟩ ⟨id, id, id, id⟩ hactive fun _ => rfl
  | freeInbox y p f f' hp hinbox hf =>
      refine proxyStep_of_active ⟨id, id, id, id⟩ ⟨id, id, id, id⟩ hactive ?_
      rintro rfl
      rw [hp.active]
      refine hclosing ⟨?_, rfl⟩
      rcases hf with ⟨rfl, -⟩ | ⟨rfl, -⟩ | ⟨rfl, -⟩ <;> exact fun h => (by cases h)
  | freeRelease y =>
      refine proxyStep_of_active ⟨id, id, id, id⟩ ⟨id, id, id, id⟩ hactive ?_
      rintro rfl
      exact hclosing ⟨fun h => (by cases h), rfl⟩
  | _ => exact proxyStep_of_away rfl ⟨id, id, id, id⟩ id id

/-- What a step does to the inbox of an active proxy. -/
theorem threadFunction_proxyStep {move : Move n}
    (h : threadFunction t sh pc move = some (.step sh' pc' e))
    (hclosing : closing sh x pc → (sh.proxy x).active = false)
    (htry : ∀ k r, pc = .receive k true r → tryPoint r = true) (hx : x ≠ sh.nextProxy)
    (hactive : (sh'.proxy x).active = true) : ProxyStep t sh pc sh' pc' x := by
  cases hrec : inReceive pc with
  | true =>
      cases pc with
      | receive k tryReceive r =>
          by_cases hr : receiveProxy r = some x
          · cases tryReceive with
            | false => exact receive_proxyStep h hr hactive
            | true =>
                exact tryReceive_proxyStep (subscriptionReceive_receiveStep h).2 hr (htry k r rfl)
          · exact (subscriptionReceive_receiveStep h).2.proxyStep_of_away hr
      | _ => cases hrec
  | false =>
      rcases threadFunction_cases h with hstep | ⟨hstep, -⟩
      · exact threadStep_proxyStep h hstep hrec hclosing hx hactive
      · exact hstep.proxyStep hclosing hactive

end

/-! ### The invariants -/

/-- `subscription_try_receive` stays at its own program points. -/
def TryInv (s : State n) : Prop := ∀ t k r, s.pc t = .receive k true r → tryPoint r = true

/-- A step of `subscription_try_receive` leads to one of its program points. -/
theorem ReceiveStep.tryPoint {t : Tid n} {sh sh' : Shared n} {k k' : Nat} {r r' : ReceivePc}
    {tryReceive : Bool} {e : Option (Event n)}
    (h : ReceiveStep t k tryReceive sh r sh' (.receive k' true r') e)
    (hr : tryReceive = true → MessageBroker.tryPoint r = true) :
    MessageBroker.tryPoint r' = true := by
  generalize hpc : Pc.receive k' true r' = pc' at h
  cases h with
  | test r r'' hr' =>
      obtain ⟨-, -, rfl⟩ := Pc.receive.inj hpc
      rcases hr' with ⟨-, rfl⟩ | ⟨-, rfl⟩ | ⟨-, rfl⟩ <;> rfl
  | load y hy =>
      obtain ⟨-, rfl, rfl⟩ := Pc.receive.inj hpc
      rfl
  | lock r y hr' hfree =>
      obtain ⟨-, rfl, -⟩ := Pc.receive.inj hpc
      rcases hr' with rfl | rfl <;> cases hr rfl
  | failed r hr' | unlockInactive y | got y => cases hpc
  | _ =>
      obtain ⟨-, rfl, rfl⟩ := Pc.receive.inj hpc
      first
        | rfl
        | cases hr rfl

/-- A receive starts with its first test. -/
theorem threadFunction_receiveCall {t : Tid n} {sh sh' : Shared n} {pc pc' : Pc} {move : Move n}
    {e : Option (Event n)} (h : threadFunction t sh pc move = some (.step sh' pc' e))
    (hold : inReceive pc = false) (hnew : inReceive pc' = true) :
    ∃ k tryReceive, pc' = .receive k tryReceive .testActive := by
  rcases threadFunction_cases h with hstep | ⟨hstep, -⟩
  · cases hstep with
    | callReceive c ht k tryReceive hk => exact ⟨k, tryReceive, rfl⟩
    | receiveRead hret => cases hold
    | receiveInbox y p hp hinbox hret => cases hold
    | unsubscribeInactive hret | clearProxy hret =>
        rcases hret with ⟨rfl, -⟩ | ⟨rfl, -⟩ <;> cases hnew
    | pendingRead hret => rcases hret with ⟨rfl, -⟩ | ⟨rfl, -⟩ <;> cases hnew
    | _ => cases hnew
  · cases hstep <;> cases hnew

/-- `TryInv` holds in every state of a run. -/
theorem tryInv_of_run {K : State n → Action n → Prop} {tr : List (Event n)} {s : State n}
    (h : (machine n capacity hcap).RunIf K tr s) : TryInv s := by
  refine h.induction (I := fun _ s => TryInv s) (fun t k r hr => (by cases hr)) ?_
  intro tr s a s' e _ hinv _ hnext
  rcases next_cases hnext with ⟨b, pool, t, pc, e', -, -, -, -, hpc, rfl⟩ |
      ⟨t, move, sh, pc, rfl, hf, rfl⟩ | ⟨t, -, rfl⟩
  · refine forall_update (P := fun _ pc => ∀ k r, pc = Pc.receive k true r → tryPoint r = true) ?_
      fun t' _ => hinv t'
    intro k r hr
    rw [hr] at hpc
    cases hpc
  · refine forall_update (P := fun _ pc => ∀ k r, pc = Pc.receive k true r → tryPoint r = true) ?_
      fun t' _ => hinv t'
    rintro k r rfl
    have hold := hinv t
    cases hrec : inReceive (s.pc t) with
    | true =>
        generalize s.pc t = pc at hf hrec hold
        cases pc with
        | receive k' tryReceive r' =>
            refine (subscriptionReceive_receiveStep hf).2.tryPoint ?_
            rintro rfl
            exact hold k' r' rfl
        | _ => cases hrec
    | false =>
        obtain ⟨k', tryReceive, hr⟩ := threadFunction_receiveCall hf hrec rfl
        obtain ⟨-, -, rfl⟩ := Pc.receive.inj hr
        rfl
  · exact hinv

/-- The threads parked on the condition variable of an active proxy, and the holder of its
mutex. -/
structure SleepInv (s : State n) (x : Nat) : Prop where
  parked : ∀ t ∈ (s.shared.proxy x).inboxCond, parkedAt x (s.pc t)
  lock : LockInv (fun t => holdsInbox x (s.pc t)) (s.shared.proxy x).inboxMutex

/-- A receiver is parked at the inbox of `x` or about to park. -/
def Watched (s : State n) (x : Nat) : Prop :=
  (s.shared.proxy x).inboxCond ≠ ∅ ∨ ∃ t, aboutToPark x (s.pc t)

/-- When a receiver sleeps at the inbox of `x`, there is a thread for each message in it that
answers for the message. -/
def ServedInv (s : State n) (x : Nat) : Prop :=
  Watched s x → ∃ S : Finset (Tid n), (∀ t ∈ S, Owes s x t) ∧
    (s.shared.proxy x).inbox.length ≤ S.card

section
variable {s : State n} {t : Tid n} {sh : Shared n} {pc : Pc} {x : Nat}

/-- A thread at one program point is not asleep when it is about to do something else. -/
theorem SleepInv.not_mem (hinv : SleepInv s x) (h : ¬ parkedAt x (s.pc t)) :
    t ∉ (s.shared.proxy x).inboxCond := fun hmem => h (hinv.parked t hmem)

/-- A step keeps `SleepInv`. -/
theorem ProxyStep.sleepInv (h : ProxyStep t s.shared (s.pc t) sh pc x) (hinv : SleepInv s x) :
    SleepInv ⟨s.pool, sh, Function.update s.pc t pc, s.faulted⟩ x := by
  refine ⟨?_, hinv.lock.update (P := holdsInbox x) t pc h.lock⟩
  -- The threads that were parked before the step, without the one that moves.
  have hother : ∀ r ∈ (s.shared.proxy x).inboxCond, r ≠ t →
      parkedAt x (Function.update s.pc t pc r) := by
    intro r hr hrt
    rw [Function.update_of_ne hrt]
    exact hinv.parked r hr
  have hleft : t ∉ (s.shared.proxy x).inboxCond → (sh.proxy x).inboxCond ⊆
      (s.shared.proxy x).inboxCond → ∀ r ∈ (sh.proxy x).inboxCond,
      parkedAt x (Function.update s.pc t pc r) := by
    intro hnot hsub r hr
    refine hother r (hsub hr) ?_
    rintro rfl
    exact hnot (hsub hr)
  intro r hr
  replace hr : r ∈ (sh.proxy x).inboxCond := hr
  show parkedAt x (Function.update s.pc t pc r)
  cases h.count with
  | quiet hinbox hcond hstay hsignal hway hpark =>
      refine hleft ?_ hcond.subset r hr
      rcases hstay with hnot | hnot
      · exact hnot
      · exact hinv.not_mem hnot
  | put msg hinbox hcond hsignal hway hnew hpark =>
      exact hleft (hinv.not_mem fun h => hway (onItsWay_of_parkedAt h)) hcond.subset r hr
  | wake r' hr' hinbox hcond hway hpark =>
      refine hleft (hinv.not_mem fun h => hway (onItsWay_of_parkedAt h)) ?_ r hr
      rw [hcond]
      exact Finset.erase_subset _ _
  | noWake hempty hcond hhold hway hbefore hpark =>
      rw [hcond] at hr
      cases hr
  | testEmpty hinbox hcond hstay => exact hleft (hinv.not_mem hstay) hcond.subset r hr
  | park hinbox hcond hpark hparked hsignal hway hdone =>
      by_cases hrt : r = t
      · subst hrt
        rwa [Function.update_self]
      · rw [hcond] at hr
        exact hother r (Finset.mem_of_mem_insert_of_ne hr hrt) hrt
  | wakeup hinbox hcond hpc =>
      rw [hcond] at hr
      exact hother r (Finset.mem_of_mem_erase hr) (Finset.ne_of_mem_erase hr)
  | take hinbox hcond hstay hpark => exact hleft (hinv.not_mem hstay) hcond.subset r hr

end

section
variable {s : State n} {t : Tid n} {sh : Shared n} {pc : Pc} {x : Nat}

/-- A receive that is about to park holds the inbox mutex. -/
theorem holdsInbox_of_aboutToPark {pc : Pc} (h : aboutToPark x pc) : holdsInbox x pc := by
  unfold aboutToPark at h
  split at h
  · exact h
  · exact h
  · exact absurd h id

/-- A sleeping receiver answers for no message. -/
theorem SleepInv.not_owes (hinv : SleepInv s x) {r : Tid n}
    (hr : r ∈ (s.shared.proxy x).inboxCond) : ¬ Owes s x r := by
  obtain ⟨k, hk⟩ := hinv.parked r hr
  rintro (hsignal | ⟨-, hawake⟩)
  · rw [hk] at hsignal
    exact hsignal
  · exact hawake hr

/-- A step keeps `ServedInv`. -/
theorem ProxyStep.servedInv (h : ProxyStep t s.shared (s.pc t) sh pc x) (hsleep : SleepInv s x)
    (hinv : ServedInv s x) :
    ServedInv ⟨s.pool, sh, Function.update s.pc t pc, s.faulted⟩ x := by
  intro hwatched
  have hother : ∀ r, r ≠ t → Owes s x r →
      (r ∈ (sh.proxy x).inboxCond → r ∈ (s.shared.proxy x).inboxCond) →
      Owes ⟨s.pool, sh, Function.update s.pc t pc, s.faulted⟩ x r := by
    intro r hrt howes hcond
    unfold Owes
    rw [show State.pc _ r = s.pc r from Function.update_of_ne hrt ..]
    exact howes.imp_right fun h => ⟨h.1, fun hr => h.2 (hcond hr)⟩
  have hself : ∀ {P : Pc → Prop}, P pc → P (Function.update s.pc t pc t) := by
    intro P hP
    rwa [Function.update_self]
  -- Somebody was watching before the step too.
  have hbefore : (aboutToPark x pc → aboutToPark x (s.pc t)) →
      (sh.proxy x).inboxCond ⊆ (s.shared.proxy x).inboxCond → Watched s x := by
    intro hpark hsub
    rcases hwatched with hcond | ⟨r, hr⟩
    · refine Or.inl fun hempty => hcond (Finset.subset_empty.mp ?_)
      rw [← hempty]
      exact hsub
    · refine Or.inr ?_
      by_cases hrt : r = t
      · subst hrt
        rw [show State.pc _ r = pc from Function.update_self ..] at hr
        exact ⟨r, hpark hr⟩
      · rw [show State.pc _ r = s.pc r from Function.update_of_ne hrt ..] at hr
        exact ⟨r, hr⟩
  show ∃ S : Finset (Tid n), _ ∧ (sh.proxy x).inbox.length ≤ S.card
  cases h.count with
  | quiet hinbox hcond hstay hsignal hway hpark =>
      obtain ⟨S, hS, hlen⟩ := hinv (hbefore hpark hcond.subset)
      refine ⟨S, ?_, hinbox ▸ hlen⟩
      intro r hr
      by_cases hrt : r = t
      · subst hrt
        rcases hS r hr with hold | ⟨hold, hawake⟩
        · exact Or.inl (hself (hsignal hold))
        · exact Or.inr ⟨hself (hway hold), fun h => hawake (hcond ▸ h)⟩
      · exact hother r hrt (hS r hr) fun h => hcond ▸ h
  | put msg hinbox hcond hsignal hway hnew hpark =>
      obtain ⟨S, hS, hlen⟩ := hinv (hbefore (fun h => absurd h hpark) hcond.subset)
      have ht : t ∉ S := by
        intro ht
        rcases hS t ht with h | ⟨h, -⟩
        · exact hsignal h
        · exact hway h
      refine ⟨insert t S, ?_, ?_⟩
      · intro r hr
        rcases Finset.mem_insert.mp hr with rfl | hrS
        · exact Or.inl (hself hnew)
        · exact hother r (by rintro rfl; exact ht hrS) (hS r hrS) fun h => hcond ▸ h
      · rw [hinbox, List.length_append, Finset.card_insert_of_notMem ht]
        exact Nat.add_le_add_right hlen 1
  | wake r' hr' hinbox hcond hway hpark =>
      -- The task has signalled, and the thread it has woken up takes its place.
      obtain ⟨S, hS, hlen⟩ := hinv (Or.inl (Finset.ne_empty_of_mem hr'))
      have hr'S : r' ∉ S.erase t := fun h => hsleep.not_owes hr' (hS r' (Finset.mem_of_mem_erase h))
      have hparked := hsleep.parked r' hr'
      have hne : r' ≠ t := by
        rintro rfl
        exact hway (onItsWay_of_parkedAt hparked)
      have hsub : ∀ {r}, r ∈ (sh.proxy x).inboxCond → r ∈ (s.shared.proxy x).inboxCond := by
        intro r hr
        rw [hcond] at hr
        exact Finset.mem_of_mem_erase hr
      refine ⟨insert r' (S.erase t), ?_, ?_⟩
      · intro r hr
        rcases Finset.mem_insert.mp hr with rfl | hrS
        · refine Or.inr ⟨?_, ?_⟩
          · rw [show State.pc _ r = s.pc r from Function.update_of_ne hne ..]
            exact onItsWay_of_parkedAt hparked
          · show r ∉ (sh.proxy x).inboxCond
            rw [hcond]
            exact Finset.notMem_erase r _
        · exact hother r (Finset.ne_of_mem_erase hrS) (hS r (Finset.mem_of_mem_erase hrS)) hsub
      · rw [hinbox, Finset.card_insert_of_notMem hr'S]
        have hcard := Finset.pred_card_le_card_erase (s := S) (a := t)
        omega
  | noWake hempty hcond hhold hway hnot hpark =>
      -- Nobody sleeps, and a thread that is about to park would hold the mutex.
      exfalso
      rcases hwatched with hcond' | ⟨r, hr⟩
      · exact hcond' hcond
      · by_cases hrt : r = t
        · rw [hrt, show State.pc _ t = pc from Function.update_self ..] at hr
          exact hpark hr
        · rw [show State.pc _ r = s.pc r from Function.update_of_ne hrt ..] at hr
          exact hrt (hsleep.lock.unique (holdsInbox_of_aboutToPark hr) hhold)
  | testEmpty hinbox hcond hstay =>
      refine ⟨∅, fun r hr => (by cases hr), ?_⟩
      rw [hinbox]
      exact Nat.zero_le _
  | park hinbox hcond hpark hparked hsignal hway hdone =>
      obtain ⟨S, hS, hlen⟩ := hinv (Or.inr ⟨t, hpark⟩)
      refine ⟨S, ?_, hinbox ▸ hlen⟩
      intro r hr
      have hrt : r ≠ t := by
        rintro rfl
        rcases hS r hr with h | ⟨h, -⟩
        · exact hsignal h
        · exact hway h
      refine hother r hrt (hS r hr) fun h => ?_
      rw [hcond] at h
      exact Finset.mem_of_mem_insert_of_ne h hrt
  | wakeup hinbox hcond hpc =>
      subst hpc
      have hsub : (sh.proxy x).inboxCond ⊆ (s.shared.proxy x).inboxCond := by
        rw [hcond]
        exact Finset.erase_subset _ _
      obtain ⟨S, hS, hlen⟩ := hinv (hbefore id hsub)
      refine ⟨S, ?_, hinbox ▸ hlen⟩
      intro r hr
      by_cases hrt : r = t
      · subst hrt
        unfold Owes
        rw [show State.pc _ r = s.pc r from Function.update_self ..]
        exact (hS r hr).imp_right fun h => ⟨h.1, fun hr => h.2 (hsub hr)⟩
      · exact hother r hrt (hS r hr) fun h => hsub h
  | take hinbox hcond hstay hpark =>
      obtain ⟨S, hS, hlen⟩ := hinv (hbefore (fun h => absurd h hpark) hcond.subset)
      refine ⟨S.erase t, ?_, ?_⟩
      · intro r hr
        exact hother r (Finset.ne_of_mem_erase hr) (hS r (Finset.mem_of_mem_erase hr))
          fun h => hcond ▸ h
      · have hcard := Finset.pred_card_le_card_erase (s := S) (a := t)
        rw [hinbox]
        cases hin : (s.shared.proxy x).inbox with
        | nil => exact Nat.zero_le _
        | cons m ms =>
            rw [hin, List.length_cons] at hlen
            show ms.length ≤ _
            omega

end

/-- Nobody is at the inbox of a proxy that has not been made yet. -/
theorem away_of_fresh {tr : List (Event n)} {s : State n} (hbox : InboxInv tr s) {x : Nat}
    (hx : s.shared.nextProxy ≤ x) (t : Tid n) : Away x (s.pc t) :=
  away_of_proxyOf fun h => absurd (hbox.pc t x h) (not_lt.mpr hx)

/-- A proxy becomes active when it is made, and nobody is at its inbox then. -/
theorem threadFunction_activates {tr : List (Event n)} {s : State n} (hbox : InboxInv tr s)
    {t : Tid n} {sh : Shared n} {pc : Pc} {move : Move n} {e : Option (Event n)}
    (h : threadFunction t s.shared (s.pc t) move = some (.step sh pc e)) {x : Nat}
    (hold : (s.shared.proxy x).active = false) (hnew : (sh.proxy x).active = true) :
    x < sh.nextProxy ∧ (sh.proxy x).inboxCond = ∅ ∧ (sh.proxy x).inboxMutex = none ∧
      ∀ r, Away x (Function.update s.pc t pc r) := by
  have hmade : sh.nextProxy = s.shared.nextProxy + 1 ∧ x = s.shared.nextProxy := by
    by_contra hne
    have hfalse : (sh.proxy x).active = false := by
      refine threadFunction_inactive h ?_ hold
      rintro id ch rfl hx
      exact hne ⟨rfl, hx⟩
    rw [hfalse] at hnew
    cases hnew
  obtain ⟨hnext, rfl⟩ := hmade
  have hother := fun r => away_of_fresh hbox le_rfl r
  cases threadFunction_pointerChange h with
  | newProxy name id ch hsh hpc' he =>
      have hproxy : sh.proxy s.shared.nextProxy = ⟨id, [], none, ∅, true, false, ch⟩ := by
        rw [hsh]
        exact Function.update_self ..
      rw [hproxy, hpc', hnext]
      refine ⟨Nat.lt_succ_self _, rfl, rfl, ?_⟩
      exact forall_update (P := fun _ pc => Away _ pc)
        ⟨fun h => h, fun h => h, fun h => h, fun h => h⟩ fun r _ => hother r
  | newSubscription name id y hpc hsh hpc' he =>
      rw [hsh] at hnext
      exact absurd hnext (Nat.succ_ne_self _).symm
  | clear k hpc hsh hpc' he =>
      rw [hsh] at hnext
      exact absurd hnext (Nat.succ_ne_self _).symm
  | other hpointer hnextS hnextP hhand hcall hload he =>
      rw [hnextP] at hnext
      exact absurd hnext (Nat.succ_ne_self _).symm

/-- The invariants of an active proxy hold in every state of a run. -/
theorem servedInv_of_run {K : State n → Action n → Prop} {tr : List (Event n)} {s : State n}
    (h : (machine n capacity hcap).RunIf K tr s) :
    ∀ x, (s.shared.proxy x).active = true →
      x < s.shared.nextProxy ∧ SleepInv s x ∧ ServedInv s x := by
  refine h.induction (I := fun _ s => ∀ x, (s.shared.proxy x).active = true →
    x < s.shared.nextProxy ∧ SleepInv s x ∧ ServedInv s x) ?_ ?_
  · intro x hx
    cases hx
  · intro tr s a s' e hrun hinv _ hnext x hx
    have hbox := inboxInv_of_run hrun
    rcases next_cases hnext with ⟨b, pool, t, pc, e', -, -, -, hold, hpc, rfl⟩ |
        ⟨t, move, sh, pc, rfl, hf, rfl⟩ | ⟨t, -, rfl⟩
    · obtain ⟨hlt, hsleep, hserved⟩ := hinv x hx
      have haway : Away x (s.pc t) := away_of_proxyOf (by rw [proxyOf_of_inCall hold]; nofun)
      have haway' : Away x pc := away_of_proxyOf (by rw [proxyOf_of_inCall hpc]; nofun)
      have hstep : ProxyStep t s.shared (s.pc t) s.shared pc x :=
        proxyStep_of_away rfl haway haway'.holdsInbox haway'.aboutToPark
      have hkept := hstep.sleepInv hsleep
      exact ⟨hlt, ⟨hkept.parked, hkept.lock⟩, hstep.servedInv hsleep hserved⟩
    · cases hold : (s.shared.proxy x).active with
      | true =>
          obtain ⟨hlt, hsleep, hserved⟩ := hinv x hold
          have hstep := threadFunction_proxyStep hf ((closingInv_of_run hrun).inactive t x)
            (tryInv_of_run hrun t) hlt.ne hx
          exact ⟨hlt.trans_le (threadFunction_pointerStep hf hbox.known (hbox.pc t)).next,
            hstep.sleepInv hsleep, hstep.servedInv hsleep hserved⟩
      | false =>
          obtain ⟨hlt, hcond, hmutex, haway⟩ := threadFunction_activates hbox hf hold hx
          refine ⟨hlt, ⟨?_, ?_⟩, ?_⟩
          · intro r hr
            rw [show (State.shared _).proxy x = sh.proxy x from rfl, hcond] at hr
            cases hr
          · intro r
            rw [show (State.shared _).proxy x = sh.proxy x from rfl, hmutex]
            exact iff_of_false (haway r).holdsInbox nofun
          · rintro (hne | ⟨r, hr⟩)
            · exact absurd hcond hne
            · exact absurd hr (haway r).aboutToPark
    · obtain ⟨hlt, hsleep, hserved⟩ := hinv x hx
      exact ⟨hlt, ⟨hsleep.parked, hsleep.lock⟩, hserved⟩

/-! ### The count -/

/-- The thread is awake inside `subscription_receive` on the proxy `x` and has not dequeued yet.
Before it has loaded the proxy, it is the proxy of its subscription. -/
def AwakeReceiver (s : State n) (x : Nat) (t : Tid n) : Prop :=
  ∃ k r, s.pc t = .receive k false r ∧
    (receiveProxy r).or (s.shared.subscription k).proxy = some x ∧
    t ∉ (s.shared.proxy x).inboxCond

/-- Finitely many threads are inside a function at a time. -/
theorem finite_busy {K : State n → Action n → Prop} {tr : List (Event n)} {s : State n}
    (h : (machine n capacity hcap).RunIf K tr s) : {t | s.pc t ≠ .idle}.Finite := by
  have hupdate : ∀ {s : State n} (t : Tid n) (pc : Pc), {t | s.pc t ≠ .idle}.Finite →
      {r | Function.update s.pc t pc r ≠ .idle}.Finite := by
    intro s t pc hfin
    refine (hfin.insert t).subset ?_
    intro r hr
    by_cases hrt : r = t
    · exact Or.inl hrt
    · replace hr : Function.update s.pc t pc r ≠ .idle := hr
      rw [Function.update_of_ne hrt] at hr
      exact Or.inr hr
  refine h.induction (I := fun _ s => {t | s.pc t ≠ .idle}.Finite) ?_ ?_
  · exact Set.finite_empty.subset fun t ht => ht rfl
  · intro tr s a s' e _ hinv _ hnext
    rcases next_cases hnext with ⟨b, pool, t, pc, e', -, -, -, -, -, rfl⟩ |
        ⟨t, move, sh, pc, rfl, hf, rfl⟩ | ⟨t, -, rfl⟩
    · exact hupdate t pc hinv
    · exact hupdate t pc hinv
    · exact hinv

/-- A receive on its way to the inbox of `x` is awake, unless it is parked. -/
theorem awakeReceiver_of_onItsWay {s : State n} {x : Nat} {t : Tid n}
    (h : onItsWay x (s.pc t)) (hawake : t ∉ (s.shared.proxy x).inboxCond) :
    AwakeReceiver s x t := by
  generalize hpc : s.pc t = pc at h
  unfold onItsWay at h
  split at h
  · rename_i k r
    refine ⟨k, r, hpc, ?_, hawake⟩
    split at h
    case h_7 => exact absurd h id
    all_goals
      subst h
      rfl
  · exact absurd h id

/-- No receiver is lost asleep. When a receiver is parked on the condition variable of an active
proxy, the messages in the inbox are at most as many as the tasks that have enqueued and not
signalled yet together with the receivers that are awake and have not dequeued yet. -/
theorem no_receiver_lost_asleep {tr : List (Event n)} {s : State n}
    (h : (machine n capacity hcap).Run tr s) {x : Nat}
    (hactive : (s.shared.proxy x).active = true) (hparked : (s.shared.proxy x).inboxCond ≠ ∅) :
    (s.shared.proxy x).inbox.length ≤
      {t | unsignalled x (s.pc t)}.ncard + {t | AwakeReceiver s x t}.ncard := by
  obtain ⟨-, -, hserved⟩ := servedInv_of_run h x hactive
  obtain ⟨S, hS, hlen⟩ := hserved (Or.inl hparked)
  have hbusy := finite_busy h
  have hsub : (S : Set (Tid n)) ⊆ {t | unsignalled x (s.pc t)} ∪ {t | AwakeReceiver s x t} := by
    intro t ht
    exact (hS t ht).imp id fun h => awakeReceiver_of_onItsWay h.1 h.2
  have hfin : ({t | unsignalled x (s.pc t)} ∪ {t | AwakeReceiver s x t}).Finite := by
    refine hbusy.subset ?_
    rintro t (ht | ⟨k, r, hpc, -⟩) hidle
    · replace ht : unsignalled x (s.pc t) := ht
      rw [hidle] at ht
      exact ht
    · rw [hidle] at hpc
      cases hpc
  calc (s.shared.proxy x).inbox.length ≤ S.card := hlen
    _ = (S : Set (Tid n)).ncard := (Set.ncard_coe_finset S).symm
    _ ≤ ({t | unsignalled x (s.pc t)} ∪ {t | AwakeReceiver s x t}).ncard :=
        Set.ncard_le_ncard hsub hfin
    _ ≤ _ := Set.ncard_union_le _ _

/-- Two clients wait for a message of the channel `c`. The task has put one into the inbox and has
not signalled yet. -/
theorem no_receiver_lost_asleep_two_receivers :
    ∃ (tr : List (Event 1)) (s : State 1), (machine 1 1 (by decide)).Run tr s ∧
      (s.shared.proxy 0).active = true ∧ (s.shared.proxy 0).inboxCond = {.client 1, .client 2} ∧
      (s.shared.proxy 0).inbox.length = 1 ∧
      (s.shared.proxy 0).inbox.length ≤
        {t | unsignalled 0 (s.pc t)}.ncard + {t | AwakeReceiver s 0 t}.ncard := by
  let name : CString := ⟨[99], by decide⟩
  obtain ⟨tr, s, hrun, htest⟩ := Machine.run_of_exec (M := machine 1 1 (by decide))
    (subscribeSchedule 0 name true
      ++ .thread (.client 1) (.callReceive 0 false) :: List.replicate 8 (.thread (.client 1) .go)
      ++ .thread (.client 2) (.callReceive 0 false) :: List.replicate 8 (.thread (.client 2) .go)
      ++ publishSchedule 0 name ⟨[49], by decide⟩
      ++ (taskSchedule 0 1).take 16)
    (fun _ s => decide ((s.shared.proxy 0).active = true ∧
      (s.shared.proxy 0).inboxCond = {.client 1, .client 2} ∧
      (s.shared.proxy 0).inbox.length = 1)) (by decide +kernel)
  obtain ⟨hactive, hcond, hlen⟩ := of_decide_eq_true htest
  exact ⟨tr, s, hrun, hactive, hcond, hlen,
    no_receiver_lost_asleep hrun hactive (by rw [hcond]; decide)⟩

end

end Miez.Proofs.MessageBroker
