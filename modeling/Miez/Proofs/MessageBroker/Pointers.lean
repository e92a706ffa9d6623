import Miez.Proofs.MessageBroker.Listed
import Miez.Proofs.MessageBroker.Receive

/-!
# `Miez.Proofs.MessageBroker.Pointers`: subscriptions and their proxies in any run

`message_broker_subscribe` makes a proxy and hands it out with a new subscription. The facts here
hold in every run, with or without failing allocations: a proxy belongs to one subscription, the
pointer of a subscription stays until the subscription is unsubscribed, and a receive has loaded
the proxy of its own subscription.
-/

set_option autoImplicit false

namespace Miez.Proofs.MessageBroker

open Miez.Lib
open Miez.MessageBroker
open Miez.ThreadPool (Tid)

section
variable {n : Nat} {capacity : UInt64} {hcap : capacity ≠ 0}

/-! ### What a step does to the pointers -/

/-- The new proxy that a subscribe has in hand, also when it gives up. -/
def subscribeProxy : Pc → Option Nat
  | .subscribe _ _ pc =>
      match pc with
      | .lockChannel _ x | .insertLast _ x | .unlockChannel _ x | .newSubscription x
      | .unlockFailed _ x | .freeProxy x _ => some x
      | _ => none
  | _ => none

/-- The subscription of a receive and the proxy that it has loaded from there. -/
def loadedProxy : Pc → Option (Nat × Nat)
  | .receive k _ r => (receiveProxy r).map fun x => (k, x)
  | _ => none

/-- What a step of a thread does to the pointers. -/
inductive PointerChange (t : Tid n) (sh : Shared n) (pc : Pc) (sh' : Shared n) (pc' : Pc)
    (e : Option (Event n)) : Prop where
  | newProxy (name : CString) (id : UInt64) (ch : Nat) (hsh : sh' = sh.newProxy id ch)
      (hpc' : pc' = .subscribe name id (.lockChannel ch sh.nextProxy)) (he : e = none)
  | newSubscription (name : CString) (id : UInt64) (x : Nat)
      (hpc : pc = .subscribe name id (.newSubscription x))
      (hsh : sh' = sh.newSubscription id name x) (hpc' : pc' = .idle)
      (he : e = some (.subscribed t sh.nextSubscription x name))
  | clear (k : Nat) (hpc : unsubscribing pc = some k)
      (hsh : sh' = sh.setSubscription k { sh.subscription k with proxy := none })
      (hpc' : pc' = .free k ∨ pc' = .idle) (he : ∀ x, e = some x → isSubscribed x = false)
  | other (hpointer : ∀ k, (sh'.subscription k).proxy = (sh.subscription k).proxy)
      (hnextS : sh'.nextSubscription = sh.nextSubscription) (hnextP : sh'.nextProxy = sh.nextProxy)
      (hhand : ∀ x, subscribeProxy pc' = some x → subscribeProxy pc = some x)
      (hcall : ∀ k, unsubscribing pc' = some k →
        unsubscribing pc = some k ∨ e = some (.unsubscribeCall t k))
      (hload : ∀ k x, loadedProxy pc' = some (k, x) →
        loadedProxy pc = some (k, x) ∨ (sh.subscription k).proxy = some x)
      (he : ∀ x, e = some x → isSubscribed x = false)

section
variable {t : Tid n} {sh sh' : Shared n} {pc pc' : Pc} {e : Option (Event n)}

/-- A step that leaves the subscriptions and the number of the proxies alone. -/
theorem pointerChange_of_same (hsub : sh'.subscription = sh.subscription)
    (hnextS : sh'.nextSubscription = sh.nextSubscription) (hnextP : sh'.nextProxy = sh.nextProxy)
    (hhand : subscribeProxy pc' = none ∨ subscribeProxy pc' = subscribeProxy pc)
    (hcall : unsubscribing pc' = none ∨ unsubscribing pc' = unsubscribing pc)
    (hload : loadedProxy pc' = none ∨ loadedProxy pc' = loadedProxy pc)
    (he : ∀ x, e = some x → isSubscribed x = false) : PointerChange t sh pc sh' pc' e := by
  refine .other (fun k => by rw [hsub]) hnextS hnextP ?_ ?_ ?_ he
  · intro x hx
    rcases hhand with h | h
    · rw [h] at hx
      cases hx
    · rwa [h] at hx
  · intro k hk
    rcases hcall with h | h
    · rw [h] at hk
      cases hk
    · exact Or.inl (h ▸ hk)
  · intro k x hx
    rcases hload with h | h
    · rw [h] at hx
      cases hx
    · exact Or.inl (h ▸ hx)

/-- A write to a subscription that leaves its pointer alone. -/
theorem setSubscription_pointer {k : Nat} {sub : Subscription}
    (h : sub.proxy = (sh.subscription k).proxy) (k' : Nat) :
    ((sh.setSubscription k sub).subscription k').proxy = (sh.subscription k').proxy := by
  by_cases hk : k' = k
  · subst hk
    simpa [Shared.setSubscription] using h
  · simp [Shared.setSubscription, Function.update_of_ne hk]

/-- A step of a receive loads the proxy of its subscription. -/
theorem ReceiveStep.pointerChange {k : Nat} {tryReceive : Bool} {r : ReceivePc}
    (h : ReceiveStep t k tryReceive sh r sh' pc' e) :
    PointerChange t sh (.receive k tryReceive r) sh' pc' e := by
  have hnone : ∀ x, (none : Option (Event n)) = some x → isSubscribed x = false := by
    intro x hx
    cases hx
  cases h with
  | load x hx =>
      refine .other (fun _ => rfl) rfl rfl (fun y hy => by cases hy) (fun y hy => by cases hy) ?_ hnone
      intro k' y hy
      obtain ⟨rfl, rfl⟩ : k = k' ∧ x = y := by
        cases tryReceive <;> simpa [loadedProxy, receiveProxy] using hy
      exact Or.inr hx
  | test r r' hr =>
      refine pointerChange_of_same rfl rfl rfl (Or.inl rfl) (Or.inl rfl) (Or.inl ?_) hnone
      rcases hr with ⟨-, rfl⟩ | ⟨-, rfl⟩ | ⟨-, rfl⟩ <;> rfl
  | lock r x hr hfree =>
      refine pointerChange_of_same rfl rfl rfl (Or.inl rfl) (Or.inl rfl) (Or.inr ?_) hnone
      rcases hr with rfl | rfl <;> rfl
  | failed r hr | unlockInactive x | got x =>
      refine pointerChange_of_same rfl rfl rfl (Or.inl rfl) (Or.inl rfl) (Or.inl rfl) ?_
      rintro y ⟨⟩
      rfl
  | _ => exact pointerChange_of_same rfl rfl rfl (Or.inl rfl) (Or.inl rfl) (Or.inr rfl) hnone

/-- A step without a failing allocation does one of the listed things. -/
theorem ThreadStep.pointerChange (h : ThreadStep t sh pc sh' pc' e) (hrec : inReceive pc = false) :
    PointerChange t sh pc sh' pc' e := by
  have hnone : ∀ x, (none : Option (Event n)) = some x → isSubscribed x = false := by
    intro x hx
    cases hx
  have hsome : ∀ {y : Event n}, isSubscribed y = false → ∀ x, some y = some x →
      isSubscribed x = false := by
    intro y hy x hx
    obtain rfl := Option.some.inj hx
    exact hy
  cases h with
  | newProxy ch => exact .newProxy _ _ ch rfl rfl rfl
  | newSubscription x => exact .newSubscription _ _ x rfl rfl rfl rfl
  | clearProxy hret =>
      refine .clear _ rfl rfl ?_ ?_
      · exact hret.imp And.left And.left
      · rcases hret with ⟨-, rfl⟩ | ⟨-, rfl⟩
        · exact hnone
        · exact hsome rfl
  | callUnsubscribe c ht k thenFree hk =>
      refine .other (fun _ => rfl) rfl rfl (fun y hy => by cases hy) ?_ (fun _ _ hy => by cases hy)
        (hsome rfl)
      intro k' hk'
      obtain rfl : k = k' := Option.some.inj hk'
      exact Or.inr rfl
  | callReceive c ht k tryReceive hk =>
      exact pointerChange_of_same rfl rfl rfl (Or.inl rfl) (Or.inl rfl) (Or.inl rfl) hnone
  | callPublish | callSubscribe | fanout | put =>
      exact pointerChange_of_same rfl rfl rfl (Or.inl rfl) (Or.inl rfl) (Or.inl rfl) (hsome rfl)
  | taskMore hg | taskFound hg | subscribeMore hg | subscribeFound hg =>
      cases hg <;>
        exact pointerChange_of_same rfl rfl rfl (Or.inl rfl) (Or.inl rfl) (Or.inl rfl) hnone
  | unsubscribeInactive hret =>
      rcases hret with ⟨rfl, rfl⟩ | ⟨rfl, rfl⟩
      · exact pointerChange_of_same rfl rfl rfl (Or.inl rfl) (Or.inl rfl) (Or.inl rfl) hnone
      · exact pointerChange_of_same rfl rfl rfl (Or.inl rfl) (Or.inl rfl) (Or.inl rfl) (hsome rfl)
  | clearActive =>
      exact .other (setSubscription_pointer rfl) rfl rfl (fun y hy => by cases hy)
        (fun _ hk => Or.inl hk) (fun _ _ hy => by cases hy) hnone
  | release k =>
      exact .other (setSubscription_pointer rfl) rfl rfl (fun y hy => by cases hy)
        (fun _ hk => by cases hk) (fun _ _ hy => by cases hy) (hsome rfl)
  | receiveRead hret => cases hrec
  | receiveInbox x p hp hinbox hret => cases hrec
  | got x => cases hrec
  | pendingRead hret =>
      rcases hret with ⟨rfl, rfl⟩ | ⟨rfl, count, rfl⟩
      · exact pointerChange_of_same rfl rfl rfl (Or.inl rfl) (Or.inl rfl) (Or.inl rfl) hnone
      · exact pointerChange_of_same rfl rfl rfl (Or.inl rfl) (Or.inl rfl) (Or.inl rfl) (hsome rfl)
  | _ => exact pointerChange_of_same rfl rfl rfl (Or.inr rfl) (Or.inr rfl) (Or.inr rfl) hnone

/-- A step of a failing call leaves the pointers alone. -/
theorem FailStep.pointerChange (h : FailStep t sh pc sh' pc' e) :
    PointerChange t sh pc sh' pc' e := by
  have hnone : ∀ x, (none : Option (Event n)) = some x → isSubscribed x = false := by
    intro x hx
    cases hx
  have hsome : ∀ {y : Event n}, isSubscribed y = false → ∀ x, some y = some x →
      isSubscribed x = false := by
    intro y hy x hx
    obtain rfl := Option.some.inj hx
    exact hy
  cases h with
  | taskMore hg | taskFailed hg | subscribeMore hg =>
      cases hg <;>
        exact pointerChange_of_same rfl rfl rfl (Or.inl rfl) (Or.inl rfl) (Or.inl rfl) hnone
  | subscribeFailed hg =>
      cases hg <;>
        exact pointerChange_of_same rfl rfl rfl (Or.inl rfl) (Or.inl rfl) (Or.inl rfl) (hsome rfl)
  | publish | newProxy | newSubscription | freeRelease =>
      exact pointerChange_of_same rfl rfl rfl (Or.inl rfl) (Or.inl rfl) (Or.inl rfl) (hsome rfl)
  | _ => exact pointerChange_of_same rfl rfl rfl (Or.inr rfl) (Or.inr rfl) (Or.inr rfl) hnone

/-- A step of a thread does one of the listed things. -/
theorem threadFunction_pointerChange {move : Move n}
    (h : threadFunction t sh pc move = some (.step sh' pc' e)) :
    PointerChange t sh pc sh' pc' e := by
  cases hrec : inReceive pc with
  | true =>
      cases pc with
      | receive k tryReceive r => exact (subscriptionReceive_receiveStep h).2.pointerChange
      | _ => cases hrec
  | false =>
      rcases threadFunction_cases h with hstep | ⟨hstep, -⟩
      · exact hstep.pointerChange hrec
      · exact hstep.pointerChange

end

/-! ### The pointers in a run -/

/-- Subscriptions, their proxies and the pointers to them. -/
structure PointerInv (tr : List (Event n)) (s : State n) : Prop where
  hand : ∀ t x, subscribeProxy (s.pc t) = some x → x < s.shared.nextProxy ∧ ∀ k, ¬ Owned tr k x
  handUnique : ∀ t t' x, subscribeProxy (s.pc t) = some x → subscribeProxy (s.pc t') = some x →
    t = t'
  owned : ∀ k x, Owned tr k x → k < s.shared.nextSubscription ∧ x < s.shared.nextProxy
  owner : ∀ k, k < s.shared.nextSubscription → ∃ x, Owned tr k x
  unique : ∀ k k' x x', Owned tr k x → Owned tr k' x' → (k = k' ↔ x = x')
  called : ∀ t k, unsubscribing (s.pc t) = some k → Unsubscribed tr k
  keep : ∀ k x, Owned tr k x → (s.shared.subscription k).proxy = some x ∨
    ((s.shared.subscription k).proxy = none ∧ Unsubscribed tr k)
  loaded : ∀ t k x, loadedProxy (s.pc t) = some (k, x) → Owned tr k x
  known : ∀ k, s.shared.nextSubscription ≤ k → (s.shared.subscription k).proxy = none

/-- An unsubscribe that was called stays so. -/
theorem Unsubscribed.append {tr tr' : List (Event n)} {k : Nat} (h : Unsubscribed tr k) :
    Unsubscribed (tr ++ tr') k := by
  obtain ⟨t, ht⟩ := h
  exact ⟨t, List.mem_append_left _ ht⟩

/-- The pointer of a subscription leads to its proxy. -/
theorem PointerInv.pointer {tr : List (Event n)} {s : State n} (h : PointerInv tr s) {k x : Nat}
    (hx : (s.shared.subscription k).proxy = some x) : Owned tr k x := by
  by_cases hk : k < s.shared.nextSubscription
  · obtain ⟨y, hy⟩ := h.owner k hk
    rcases h.keep k y hy with hkeep | ⟨hnone, -⟩
    · obtain rfl : y = x := Option.some.inj (hkeep.symm.trans hx)
      exact hy
    · rw [hnone] at hx
      cases hx
  · rw [h.known k (not_lt.mp hk)] at hx
    cases hx

/-- Two subscribes do not have one proxy in hand after a step of the thread `t`, when `t` has the
same as before or something that no other thread has. -/
theorem handUnique_update {f : Tid n → Pc} {t : Tid n} {pc : Pc}
    (hinv : ∀ t₁ t₂ x, subscribeProxy (f t₁) = some x → subscribeProxy (f t₂) = some x → t₁ = t₂)
    (hnew : ∀ x, subscribeProxy pc = some x →
      subscribeProxy (f t) = some x ∨ ∀ t', subscribeProxy (f t') ≠ some x) :
    ∀ t₁ t₂ x, subscribeProxy (Function.update f t pc t₁) = some x →
      subscribeProxy (Function.update f t pc t₂) = some x → t₁ = t₂ := by
  have hself : ∀ t' x, t' ≠ t → subscribeProxy pc = some x → subscribeProxy (f t') = some x →
      False := by
    intro t' x hne hx hx'
    rcases hnew x hx with h | h
    · exact hne (hinv t' t x hx' h)
    · exact h t' hx'
  intro t₁ t₂ x h₁ h₂
  by_cases ht₁ : t₁ = t
  · by_cases ht₂ : t₂ = t
    · rw [ht₁, ht₂]
    · rw [ht₁, Function.update_self] at h₁
      rw [Function.update_of_ne ht₂] at h₂
      exact absurd (hself t₂ x ht₂ h₁ h₂) id
  · rw [Function.update_of_ne ht₁] at h₁
    by_cases ht₂ : t₂ = t
    · rw [ht₂, Function.update_self] at h₂
      exact absurd (hself t₁ x ht₁ h₂ h₁) id
    · rw [Function.update_of_ne ht₂] at h₂
      exact hinv t₁ t₂ x h₁ h₂

/-- A step of a thread keeps `PointerInv`. -/
theorem PointerChange.pointerInv {tr : List (Event n)} {s : State n} {t : Tid n} {sh : Shared n}
    {pc : Pc} {e : Option (Event n)} (h : PointerChange t s.shared (s.pc t) sh pc e)
    (hinv : PointerInv tr s) :
    PointerInv (tr ++ e.toList) ⟨s.pool, sh, Function.update s.pc t pc, s.faulted⟩ := by
  -- a step that hands nothing out
  have hback : (∀ x, e = some x → isSubscribed x = false) → ∀ k x, Owned (tr ++ e.toList) k x →
      Owned tr k x := by
    rintro he k x ⟨t', name, hmem⟩
    exact ⟨t', name, subscribed_mem_append he hmem⟩
  cases h with
  | newProxy name id ch hsh hpc' he =>
      subst hsh hpc' he
      rw [Option.toList_none, List.append_nil]
      have hlt : ∀ {x}, x < s.shared.nextProxy → x < s.shared.nextProxy + 1 :=
        fun h => Nat.lt_succ_of_lt h
      refine ⟨?_, ?_, ?_, hinv.owner, hinv.unique, ?_, hinv.keep, ?_, hinv.known⟩
      · refine forall_update (P := fun _ pc => ∀ x, subscribeProxy pc = some x →
          x < s.shared.nextProxy + 1 ∧ ∀ k, ¬ Owned tr k x) ?_
          fun t' _ x hx => ⟨hlt (hinv.hand t' x hx).1, (hinv.hand t' x hx).2⟩
        intro x hx
        obtain rfl : s.shared.nextProxy = x := Option.some.inj hx
        exact ⟨Nat.lt_succ_self _, fun k hk => lt_irrefl _ (hinv.owned k _ hk).2⟩
      · refine handUnique_update hinv.handUnique fun x hx => Or.inr fun t' hx' => ?_
        obtain rfl : s.shared.nextProxy = x := Option.some.inj hx
        exact lt_irrefl _ (hinv.hand t' _ hx').1
      · exact fun k x hk => ⟨(hinv.owned k x hk).1, hlt (hinv.owned k x hk).2⟩
      · exact forall_update (P := fun _ pc => ∀ k, unsubscribing pc = some k → Unsubscribed tr k)
          (fun k hk => by cases hk) fun t' _ => hinv.called t'
      · exact forall_update (P := fun _ pc => ∀ k x, loadedProxy pc = some (k, x) → Owned tr k x)
          (fun k x hx => by cases hx) fun t' _ => hinv.loaded t'
  | newSubscription name id x hpc hsh hpc' he =>
      subst hsh hpc' he
      have hx : subscribeProxy (s.pc t) = some x := by rw [hpc]; rfl
      have hnew : Owned (tr ++ [.subscribed t s.shared.nextSubscription x name])
          s.shared.nextSubscription x := ⟨t, name, by simp⟩
      have hcases : ∀ {k y}, Owned (tr ++ [.subscribed t s.shared.nextSubscription x name]) k y →
          Owned tr k y ∨ (k = s.shared.nextSubscription ∧ y = x) := by
        rintro k y ⟨t', name', hmem⟩
        rcases List.mem_append.mp hmem with hmem | hmem
        · exact Or.inl ⟨t', name', hmem⟩
        · cases List.mem_singleton.mp hmem
          exact Or.inr ⟨rfl, rfl⟩
      have hold : ∀ {k}, k ≠ s.shared.nextSubscription →
          (s.shared.newSubscription id name x).subscription k = s.shared.subscription k :=
        fun hk => Function.update_of_ne hk ..
      have hself : ((s.shared.newSubscription id name x).subscription
          s.shared.nextSubscription).proxy = some x := by
        rw [show (s.shared.newSubscription id name x).subscription _ = _ from
          Function.update_self ..]
      rw [Option.toList_some]
      refine ⟨?_, ?_, ?_, ?_, ?_, ?_, ?_, ?_, ?_⟩
      · intro t' y hy
        by_cases ht : t' = t
        · rw [ht] at hy
          change subscribeProxy (Function.update s.pc t .idle t) = some y at hy
          rw [Function.update_self] at hy
          cases hy
        · change subscribeProxy (Function.update s.pc t .idle t') = some y at hy
          rw [Function.update_of_ne ht] at hy
          refine ⟨(hinv.hand t' y hy).1, fun k hk => ?_⟩
          rcases hcases hk with hk | ⟨-, rfl⟩
          · exact (hinv.hand t' y hy).2 k hk
          · exact ht (hinv.handUnique t' t y hy hx)
      · exact handUnique_update hinv.handUnique fun y hy => by cases hy
      · intro k y hk
        rcases hcases hk with hk | ⟨rfl, rfl⟩
        · exact ⟨Nat.lt_succ_of_lt (hinv.owned k y hk).1, (hinv.owned k y hk).2⟩
        · exact ⟨Nat.lt_succ_self _, (hinv.hand t y hx).1⟩
      · intro k hk
        by_cases hlast : k = s.shared.nextSubscription
        · rw [hlast]
          exact ⟨x, hnew⟩
        · have hk' : k < s.shared.nextSubscription + 1 := hk
          obtain ⟨y, hy⟩ := hinv.owner k (by omega)
          exact ⟨y, hy.append⟩
      · intro k k' y y' h h'
        rcases hcases h with hk | ⟨rfl, rfl⟩
        · rcases hcases h' with hk' | ⟨rfl, rfl⟩
          · exact hinv.unique k k' y y' hk hk'
          · have hlt := (hinv.owned k y hk).1
            constructor
            · intro hkk
              omega
            · rintro rfl
              exact absurd hk ((hinv.hand t y hx).2 k)
        · rcases hcases h' with hk' | ⟨rfl, rfl⟩
          · have hlt := (hinv.owned k' y' hk').1
            constructor
            · intro hkk
              omega
            · rintro rfl
              exact absurd hk' ((hinv.hand t y hx).2 k')
          · exact iff_of_true rfl rfl
      · exact forall_update (P := fun _ pc => ∀ k, unsubscribing pc = some k → Unsubscribed _ k)
          (fun k hk => by cases hk) fun t' _ k hk => (hinv.called t' k hk).append
      · intro k y hk
        rcases hcases hk with hk | ⟨rfl, rfl⟩
        · have hne : k ≠ s.shared.nextSubscription := Nat.ne_of_lt (hinv.owned k y hk).1
          rw [show State.shared _ = s.shared.newSubscription id name x from rfl, hold hne]
          exact (hinv.keep k y hk).imp_right fun h => ⟨h.1, h.2.append⟩
        · exact Or.inl hself
      · exact forall_update (P := fun _ pc => ∀ k y, loadedProxy pc = some (k, y) → Owned _ k y)
          (fun k y hy => by cases hy) fun t' _ k y hy => (hinv.loaded t' k y hy).append
      · intro k hk
        have hk' : s.shared.nextSubscription + 1 ≤ k := hk
        rw [show State.shared _ = s.shared.newSubscription id name x from rfl, hold (by omega)]
        exact hinv.known k (by omega)
  | clear k hpc hsh hpc' he =>
      subst hsh
      have hnone : subscribeProxy pc = none ∧ unsubscribing pc = none ∧ loadedProxy pc = none := by
        rcases hpc' with rfl | rfl <;> exact ⟨rfl, rfl, rfl⟩
      have hother : ∀ {k'}, k' ≠ k → (s.shared.setSubscription k
          { s.shared.subscription k with proxy := none }).subscription k' =
          s.shared.subscription k' := fun hk => Function.update_of_ne hk ..
      have hself : ((s.shared.setSubscription k
          { s.shared.subscription k with proxy := none }).subscription k).proxy = none := by
        rw [show (s.shared.setSubscription k _).subscription k = _ from Function.update_self ..]
      refine ⟨?_, ?_, ?_, ?_, ?_, ?_, ?_, ?_, ?_⟩
      · refine forall_update (P := fun _ pc => ∀ x, subscribeProxy pc = some x →
          x < s.shared.nextProxy ∧ ∀ k, ¬ Owned (tr ++ e.toList) k x) ?_ ?_
        · intro x hx
          rw [hnone.1] at hx
          cases hx
        · exact fun t' _ x hx => ⟨(hinv.hand t' x hx).1,
            fun k hk => (hinv.hand t' x hx).2 k (hback he k x hk)⟩
      · refine handUnique_update hinv.handUnique fun x hx => ?_
        rw [hnone.1] at hx
        cases hx
      · exact fun k x hk => hinv.owned k x (hback he k x hk)
      · intro k hk
        obtain ⟨x, hx⟩ := hinv.owner k hk
        exact ⟨x, hx.append⟩
      · exact fun k k' x x' h h' => hinv.unique k k' x x' (hback he k x h) (hback he k' x' h')
      · refine forall_update (P := fun _ pc => ∀ k, unsubscribing pc = some k → Unsubscribed _ k)
          ?_ fun t' _ k hk => (hinv.called t' k hk).append
        intro k hk
        rw [hnone.2.1] at hk
        cases hk
      · intro k' x hk'
        have hk'' := hinv.keep k' x (hback he k' x hk')
        by_cases hkk : k' = k
        · subst hkk
          exact Or.inr ⟨hself, (hinv.called t k' hpc).append⟩
        · rw [show State.shared _ = s.shared.setSubscription k _ from rfl, hother hkk]
          exact hk''.imp_right fun h => ⟨h.1, h.2.append⟩
      · refine forall_update (P := fun _ pc => ∀ k y, loadedProxy pc = some (k, y) → Owned _ k y)
          ?_ fun t' _ k y hy => (hinv.loaded t' k y hy).append
        intro k y hy
        rw [hnone.2.2] at hy
        cases hy
      · intro k' hk'
        by_cases hkk : k' = k
        · subst hkk
          exact hself
        · rw [show State.shared _ = s.shared.setSubscription k _ from rfl, hother hkk]
          exact hinv.known k' hk'
  | other hpointer hnextS hnextP hhand hcall hload he =>
      refine ⟨?_, ?_, ?_, ?_, ?_, ?_, ?_, ?_, ?_⟩
      · have hold : ∀ t' x, subscribeProxy (s.pc t') = some x → x < sh.nextProxy ∧
            ∀ k, ¬ Owned (tr ++ e.toList) k x := by
          intro t' x hx
          rw [hnextP]
          exact ⟨(hinv.hand t' x hx).1, fun k hk => (hinv.hand t' x hx).2 k (hback he k x hk)⟩
        exact forall_update (P := fun _ pc => ∀ x, subscribeProxy pc = some x → x < sh.nextProxy ∧
          ∀ k, ¬ Owned (tr ++ e.toList) k x) (fun x hx => hold t x (hhand x hx))
          fun t' _ => hold t'
      · exact handUnique_update hinv.handUnique fun x hx => Or.inl (hhand x hx)
      · intro k x hk
        rw [show State.shared _ = sh from rfl, hnextS, hnextP]
        exact hinv.owned k x (hback he k x hk)
      · intro k hk
        rw [show State.shared _ = sh from rfl, hnextS] at hk
        obtain ⟨x, hx⟩ := hinv.owner k hk
        exact ⟨x, hx.append⟩
      · exact fun k k' x x' h h' => hinv.unique k k' x x' (hback he k x h) (hback he k' x' h')
      · refine forall_update (P := fun _ pc => ∀ k, unsubscribing pc = some k → Unsubscribed _ k)
          ?_ fun t' _ k hk => (hinv.called t' k hk).append
        intro k hk
        rcases hcall k hk with hk | hk
        · exact (hinv.called t k hk).append
        · exact ⟨t, List.mem_append_right _ (by rw [hk]; exact List.mem_singleton_self _)⟩
      · intro k x hk
        rw [show State.shared _ = sh from rfl, hpointer]
        exact (hinv.keep k x (hback he k x hk)).imp_right fun h => ⟨h.1, h.2.append⟩
      · refine forall_update (P := fun _ pc => ∀ k y, loadedProxy pc = some (k, y) → Owned _ k y)
          ?_ fun t' _ k y hy => (hinv.loaded t' k y hy).append
        intro k y hy
        rcases hload k y hy with h | h
        · exact (hinv.loaded t k y h).append
        · exact (hinv.pointer h).append
      · intro k hk
        rw [show State.shared _ = sh from rfl] at hk ⊢
        rw [hpointer]
        exact hinv.known k (hnextS ▸ hk)

/-- `PointerInv` holds in every state of a run. -/
theorem pointerInv_of_run {K : State n → Action n → Prop} {tr : List (Event n)} {s : State n}
    (h : (machine n capacity hcap).RunIf K tr s) : PointerInv tr s := by
  refine h.induction (I := PointerInv) ?_ ?_
  · have hnone : ∀ k x, ¬ Owned ([] : List (Event n)) k x := by
      rintro k x ⟨t, name, hmem⟩
      cases hmem
    exact ⟨fun t x hx => (by cases hx), fun t t' x hx => (by cases hx),
      fun k x hk => absurd hk (hnone k x), fun k hk => absurd hk (Nat.not_lt_zero k),
      fun k k' x x' hk => absurd hk (hnone k x), fun t k hk => (by cases hk),
      fun k x hk => absurd hk (hnone k x), fun t k x hx => (by cases hx), fun k _ => rfl⟩
  · intro tr s a s' e _ hinv _ hnext
    rcases next_cases hnext with ⟨b, pool, t, pc, e', -, -, rfl, -, hpc, rfl⟩ |
        ⟨t, move, sh, pc, rfl, hf, rfl⟩ | ⟨t, rfl, rfl⟩
    · have hnone : subscribeProxy pc = none ∧ unsubscribing pc = none ∧ loadedProxy pc = none := by
        rcases inCall_cases hpc with rfl | ⟨arg, rfl⟩ | rfl | ⟨arg, rfl⟩ <;> exact ⟨rfl, rfl, rfl⟩
      have hevent : ∀ x, e'.map Event.pool = some x → isSubscribed x = false := by
        intro x hx
        obtain ⟨y, -, rfl⟩ := Option.map_eq_some_iff.mp hx
        rfl
      have hchange : PointerChange t s.shared (s.pc t) s.shared pc (e'.map .pool) :=
        pointerChange_of_same rfl rfl rfl (Or.inl hnone.1) (Or.inl hnone.2.1) (Or.inl hnone.2.2)
          hevent
      have hkept := hchange.pointerInv hinv
      exact ⟨hkept.hand, hkept.handUnique, hkept.owned, hkept.owner, hkept.unique, hkept.called,
        hkept.keep, hkept.loaded, hkept.known⟩
    · exact (threadFunction_pointerChange hf).pointerInv hinv
    · rw [Option.toList_none, List.append_nil]
      exact ⟨hinv.hand, hinv.handUnique, hinv.owned, hinv.owner, hinv.unique, hinv.called,
        hinv.keep, hinv.loaded, hinv.known⟩

/-! ### The steps that show some events -/

/-- The event of a step of the pool. -/
theorem pool_ne {e' : Option (ThreadPool.Event n PublisherTaskArg)} {x : Event n}
    (h : some x = e'.map Event.pool) : poolEvent x ≠ none := by
  obtain ⟨y, -, rfl⟩ := Option.map_eq_some_iff.mp h.symm
  exact Option.some_ne_none y

/-- A step that shows an event that is not of the pool is a step of a thread. -/
theorem next_thread {b b' : State n} {a : Action n} {x : Event n}
    (h : next b a = some (b', some x)) (hx : poolEvent x = none) :
    ∃ t move sh pc, a = .thread t move ∧
      threadFunction t b.shared (b.pc t) move = some (.step sh pc (some x)) ∧
      b' = ⟨b.pool, sh, Function.update b.pc t pc, b.faulted⟩ := by
  rcases next_cases h with ⟨_, _, _, _, e', -, -, he, -, -, -⟩ | hthread | ⟨_, he, -⟩
  · exact absurd hx (pool_ne he)
  · exact hthread
  · cases he

/-- A subscription is freed by the last step of `subscription_free`. -/
theorem next_freed {b b' : State n} {a : Action n} {t : Tid n} {k : Nat}
    (h : next b a = some (b', some (.freed t k))) : a = .thread t .go ∧ b.pc t = .free k := by
  obtain ⟨t', move, sh, pc, rfl, hf, -⟩ := next_thread h rfl
  rcases threadFunction_cases hf with hstep | ⟨hstep, -⟩
  · generalize hpc : b.pc t' = pc₀ at hstep hf
    cases hstep with
    | release k =>
        cases move with
        | go => exact ⟨rfl, hpc⟩
        | _ => cases hf
    | unsubscribeInactive hret => rcases hret with ⟨-, he⟩ | ⟨-, he⟩ <;> cases he
    | clearProxy hret => rcases hret with ⟨-, he⟩ | ⟨-, he⟩ <;> cases he
    | receiveRead hret => rcases hret with ⟨_, -, he⟩ | ⟨-, he⟩ <;> cases he
    | receiveInbox _ _ _ _ hret => rcases hret with ⟨_, -, he⟩ | ⟨-, he⟩ <;> cases he
    | pendingRead hret => rcases hret with ⟨-, he⟩ | ⟨-, _, he⟩ <;> cases he
  · generalize b.pc t' = pc₀ at hstep
    cases hstep

/-- A message is handed out by the last step of a receive. -/
theorem next_got {b b' : State n} {a : Action n} {t : Tid n} {k x : Nat} {msg : Option Message}
    (h : next b a = some (b', some (.got t k x msg))) :
    a = .thread t .go ∧ ∃ tryReceive, b.pc t = .receive k tryReceive (.dequeue x) := by
  obtain ⟨t', move, sh, pc, rfl, hf, -⟩ := next_thread h rfl
  rcases threadFunction_cases hf with hstep | ⟨hstep, -⟩
  · generalize hpc : b.pc t' = pc₀ at hstep hf
    cases hstep with
    | got x =>
        obtain ⟨rfl, -⟩ := subscriptionReceive_receiveStep hf
        exact ⟨rfl, _, hpc⟩
    | unsubscribeInactive hret => rcases hret with ⟨-, he⟩ | ⟨-, he⟩ <;> cases he
    | clearProxy hret => rcases hret with ⟨-, he⟩ | ⟨-, he⟩ <;> cases he
    | receiveRead hret => rcases hret with ⟨_, -, he⟩ | ⟨-, he⟩ <;> cases he
    | receiveInbox _ _ _ _ hret => rcases hret with ⟨_, -, he⟩ | ⟨-, he⟩ <;> cases he
    | pendingRead hret => rcases hret with ⟨-, he⟩ | ⟨-, _, he⟩ <;> cases he
  · generalize b.pc t' = pc₀ at hstep
    cases hstep

/-- A subscribe returns a new subscription with the proxy that it has in hand. -/
theorem next_subscribed {b b' : State n} {a : Action n} {t : Tid n} {k x : Nat} {name : CString}
    (h : next b a = some (b', some (.subscribed t k x name))) :
    k = b.shared.nextSubscription ∧ subscribeProxy (b.pc t) = some x := by
  obtain ⟨t', move, sh, pc, rfl, hf, -⟩ := next_thread h rfl
  rcases threadFunction_cases hf with hstep | ⟨hstep, -⟩
  · generalize hpc : b.pc t' = pc₀ at hstep hf
    cases hstep with
    | newSubscription x =>
        rw [hpc]
        exact ⟨rfl, rfl⟩
    | unsubscribeInactive hret => rcases hret with ⟨-, he⟩ | ⟨-, he⟩ <;> cases he
    | clearProxy hret => rcases hret with ⟨-, he⟩ | ⟨-, he⟩ <;> cases he
    | receiveRead hret => rcases hret with ⟨_, -, he⟩ | ⟨-, he⟩ <;> cases he
    | receiveInbox _ _ _ _ hret => rcases hret with ⟨_, -, he⟩ | ⟨-, he⟩ <;> cases he
    | pendingRead hret => rcases hret with ⟨-, he⟩ | ⟨-, _, he⟩ <;> cases he
  · generalize b.pc t' = pc₀ at hstep
    cases hstep

/-- A message is handed out of the inbox of the proxy of the subscription. -/
theorem owned_of_got {K : State n → Action n → Prop} {tr : List (Event n)} {s : State n}
    (h : (machine n capacity hcap).RunIf K tr s) {t : Tid n} {k x : Nat} {msg : Option Message}
    (hgot : .got t k x msg ∈ tr) : Owned tr k x := by
  refine h.induction (I := fun tr _ => ∀ t k x msg, .got t k x msg ∈ tr → Owned tr k x) ?_ ?_ t k x
    msg hgot
  · intro t k x msg hgot
    cases hgot
  · intro tr s a s' e hrun hinv _ hnext t k x msg hgot
    have howned : Owned tr k x := by
      rcases List.mem_append.mp hgot with hgot | hgot
      · exact hinv t k x msg hgot
      · rw [Option.mem_toList.mp hgot] at hnext
        obtain ⟨-, tryReceive, hpc⟩ := next_got hnext
        exact (pointerInv_of_run hrun).loaded t k x (by rw [hpc]; rfl)
    obtain ⟨t', name, hmem⟩ := howned
    exact ⟨t', name, List.mem_append_left _ hmem⟩

/-- An unsubscribe is called by an idle client. -/
theorem next_unsubscribeCall {b b' : State n} {a : Action n} {t : Tid n} {k : Nat}
    (h : next b a = some (b', some (.unsubscribeCall t k))) :
    (a = .thread t (.callUnsubscribe k) ∨ a = .thread t (.callFree k)) ∧ b.pc t = .idle ∧
      k < b.shared.nextSubscription := by
  obtain ⟨t', move, sh, pc, rfl, hf, -⟩ := next_thread h rfl
  rcases threadFunction_cases hf with hstep | ⟨hstep, -⟩
  · generalize hpc : b.pc t' = pc₀ at hstep hf
    cases hstep with
    | callUnsubscribe c ht k thenFree hk =>
        subst ht
        refine ⟨?_, hpc, hk⟩
        cases move with
        | callUnsubscribe k' =>
            simp only [threadFunction, call, Option.ite_none_right_eq_some, Option.some.injEq,
              Outcome.step.injEq, Event.unsubscribeCall.injEq] at hf
            rw [hf.2.2.2.2]
            exact Or.inl rfl
        | callFree k' =>
            simp only [threadFunction, call, Option.ite_none_right_eq_some, Option.some.injEq] at hf
            split at hf
            · simp only [Outcome.step.injEq, Option.some.injEq, Event.unsubscribeCall.injEq] at hf
              rw [hf.2.2.2.2]
              exact Or.inr rfl
            · simp at hf
        | callPublish | callSubscribe => simp [threadFunction, call] at hf
        | callReceive | callPendingCount => simp [threadFunction, call] at hf
        | _ => cases hf
    | unsubscribeInactive hret => rcases hret with ⟨-, he⟩ | ⟨-, he⟩ <;> cases he
    | clearProxy hret => rcases hret with ⟨-, he⟩ | ⟨-, he⟩ <;> cases he
    | receiveRead hret => rcases hret with ⟨_, -, he⟩ | ⟨-, he⟩ <;> cases he
    | receiveInbox _ _ _ _ hret => rcases hret with ⟨_, -, he⟩ | ⟨-, he⟩ <;> cases he
    | pendingRead hret => rcases hret with ⟨-, he⟩ | ⟨-, _, he⟩ <;> cases he
  · generalize b.pc t' = pc₀ at hstep
    cases hstep

/-- The count of `subscription_get_pending_count` is the number of the messages in the inbox. -/
theorem next_pending {b b' : State n} {a : Action n} {t : Tid n} {k count : Nat}
    (h : next b a = some (b', some (.pending t k count))) :
    a = .thread t .go ∧ (∃ second, b.pc t = .pendingCount k second) ∧
      (((b.shared.subscription k).proxy = none ∧ count = 0) ∨
        ∃ x, (b.shared.subscription k).proxy = some x ∧
          count = (b.shared.proxy x).inbox.length) := by
  obtain ⟨t', move, sh, pc, rfl, hf, -⟩ := next_thread h rfl
  rcases threadFunction_cases hf with hstep | ⟨hstep, -⟩
  · generalize hpc : b.pc t' = pc₀ at hstep hf
    cases hstep with
    | @pendingRead k' second hret =>
        cases move with
        | go =>
            cases second with
            | false =>
                simp only [threadFunction, subscriptionGetPendingCount, derefSubscription_eq_step,
                  Option.some.injEq] at hf
                obtain ⟨-, hf⟩ := hf
                split at hf
                · rename_i hnone
                  simp only [Outcome.step.injEq, Option.some.injEq, Event.pending.injEq] at hf
                  obtain ⟨-, -, rfl, rfl, rfl⟩ := hf
                  exact ⟨rfl, ⟨_, hpc⟩, Or.inl ⟨hnone, rfl⟩⟩
                · simp at hf
            | true =>
                simp only [threadFunction, subscriptionGetPendingCount, derefProxy_eq_step,
                  Option.some.injEq, Outcome.step.injEq, Event.pending.injEq] at hf
                obtain ⟨-, x, hx, -, -, -, rfl, rfl, rfl⟩ := hf
                exact ⟨rfl, ⟨_, hpc⟩, Or.inr ⟨x, hx, rfl⟩⟩
        | _ => cases hf
    | unsubscribeInactive hret => rcases hret with ⟨-, he⟩ | ⟨-, he⟩ <;> cases he
    | clearProxy hret => rcases hret with ⟨-, he⟩ | ⟨-, he⟩ <;> cases he
    | receiveRead hret => rcases hret with ⟨_, -, he⟩ | ⟨-, he⟩ <;> cases he
    | receiveInbox _ _ _ _ hret => rcases hret with ⟨_, -, he⟩ | ⟨-, he⟩ <;> cases he
  · generalize b.pc t' = pc₀ at hstep
    cases hstep

end

end Miez.Proofs.MessageBroker
