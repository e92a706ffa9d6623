import Miez.Proofs.MessageBroker.Proxies

/-!
# `Miez.Proofs.MessageBroker.Present`: a proxy stays in its list until its own unsubscribe

An unsubscribe takes out the first proxy of the list that has the id of its subscription.
`IdInv` is why this is the right one: as long as fewer than 2^64 subscribes took an id, no two
proxies have the same id. `Present` is what the delivery of messages rests on: a proxy is
active and in the list of its channel, or about to be put there, until an unsubscribe of its
own subscription begins.
-/

set_option autoImplicit false

namespace Miez.Proofs.MessageBroker

open Miez.Lib
open Miez.MessageBroker
open Miez.ThreadPool (Tid)

section
variable {n : Nat} {capacity : UInt64} {hcap : capacity ≠ 0}

/-! ### Subscriber ids -/

/-- The id of a subscribe that has not made its proxy yet. -/
def pendingId : Pc → Option UInt64
  | .subscribe _ id (.getChannel _) | .subscribe _ id (.newProxy _) => some id
  | _ => none

/-- Only the call of a subscribe takes an id. -/
theorem ThreadStep.subscriberId {t : Tid n} {sh sh' : Shared n} {pc pc' : Pc}
    {e : Option (Event n)} (h : ThreadStep t sh pc sh' pc' e) :
    (sh'.nextSubscriberId = sh.nextSubscriberId + 1 ∧ sh'.nextSubscribe = sh.nextSubscribe + 1 ∧
      sh'.nextProxy = sh.nextProxy ∧ sh'.proxy = sh.proxy ∧
      pendingId pc' = some sh.nextSubscriberId) ∨
    (sh'.nextSubscriberId = sh.nextSubscriberId ∧ sh'.nextSubscribe = sh.nextSubscribe ∧
      ∀ id, pendingId pc' = some id → pendingId pc = some id) := by
  cases h with
  | callSubscribe c ht name => exact Or.inl ⟨rfl, rfl, rfl, rfl, rfl⟩
  | taskMore hg => cases hg <;> exact Or.inr ⟨rfl, rfl, fun _ h => h⟩
  | taskFound hg => cases hg; exact Or.inr ⟨rfl, rfl, fun _ h => h⟩
  | subscribeMore hg => cases hg <;> exact Or.inr ⟨rfl, rfl, fun _ h => h⟩
  | subscribeFound hg => cases hg; exact Or.inr ⟨rfl, rfl, fun _ h => h⟩
  | newProxy ch => exact Or.inr ⟨rfl, rfl, by rintro id ⟨⟩⟩
  | unsubscribeInactive hret =>
      rcases hret with ⟨rfl, -⟩ | ⟨rfl, -⟩ <;> exact Or.inr ⟨rfl, rfl, fun _ h => h⟩
  | clearProxy hret =>
      rcases hret with ⟨rfl, -⟩ | ⟨rfl, -⟩ <;> exact Or.inr ⟨rfl, rfl, fun _ h => h⟩
  | receiveRead hret =>
      rcases hret with ⟨r', rfl, -⟩ | ⟨rfl, -⟩ <;> exact Or.inr ⟨rfl, rfl, fun _ h => h⟩
  | receiveInbox x p hp hinbox hret =>
      rcases hret with ⟨r', rfl, -⟩ | ⟨rfl, -⟩ <;> exact Or.inr ⟨rfl, rfl, fun _ h => h⟩
  | pendingRead hret =>
      rcases hret with ⟨rfl, -⟩ | ⟨rfl, -⟩ <;> exact Or.inr ⟨rfl, rfl, fun _ h => h⟩
  | _ => exact Or.inr ⟨rfl, rfl, fun _ h => h⟩

/-- The ids taken so far are 1 to `nextSubscribe`, and each of them belongs to one subscribe
under way or to one proxy. -/
structure IdInv (s : State n) : Prop where
  next : s.shared.nextSubscriberId = UInt64.ofNat (s.shared.nextSubscribe + 1)
  pending : ∀ t id, pendingId (s.pc t) = some id → id.toNat ≤ s.shared.nextSubscribe
  taken : ∀ x, x < s.shared.nextProxy → (s.shared.proxy x).id.toNat ≤ s.shared.nextSubscribe
  pendingUnique : ∀ t t' id, pendingId (s.pc t) = some id → pendingId (s.pc t') = some id → t = t'
  pendingFresh : ∀ t id, pendingId (s.pc t) = some id →
    ∀ x, x < s.shared.nextProxy → (s.shared.proxy x).id ≠ id
  unique : ∀ x y, x < s.shared.nextProxy → y < s.shared.nextProxy →
    (s.shared.proxy x).id = (s.shared.proxy y).id → x = y

/-- `IdInv` is kept by a step that takes no id and makes no proxy. -/
theorem IdInv.same {s s' : State n} (hinv : IdInv s)
    (hid : s'.shared.nextSubscriberId = s.shared.nextSubscriberId)
    (hnext : s'.shared.nextSubscribe = s.shared.nextSubscribe)
    (hproxies : s'.shared.nextProxy = s.shared.nextProxy)
    (hproxy : ∀ x, x < s.shared.nextProxy → (s'.shared.proxy x).id = (s.shared.proxy x).id)
    (hpending : ∀ t id, pendingId (s'.pc t) = some id → pendingId (s.pc t) = some id) :
    IdInv s' := by
  refine ⟨?_, ?_, ?_, ?_, ?_, ?_⟩
  · rw [hid, hnext]
    exact hinv.next
  · intro t id h
    rw [hnext]
    exact hinv.pending t id (hpending t id h)
  · intro x hx
    rw [hproxies] at hx
    rw [hnext, hproxy x hx]
    exact hinv.taken x hx
  · intro t t' id h h'
    exact hinv.pendingUnique t t' id (hpending t id h) (hpending t' id h')
  · intro t id h x hx
    rw [hproxies] at hx
    rw [hproxy x hx]
    exact hinv.pendingFresh t id (hpending t id h) x hx
  · intro x y hx hy h
    rw [hproxies] at hx hy
    rw [hproxy x hx, hproxy y hy] at h
    exact hinv.unique x y hx hy h

/-- The call of a subscribe takes an id that nobody has. -/
theorem IdInv.take {s : State n} (hinv : IdInv s) {t : Tid n} {sh : Shared n} {pc : Pc}
    (hid : sh.nextSubscriberId = s.shared.nextSubscriberId + 1)
    (hnext : sh.nextSubscribe = s.shared.nextSubscribe + 1)
    (hbound : sh.nextSubscribe < 2 ^ 64)
    (hproxies : sh.nextProxy = s.shared.nextProxy) (hproxy : sh.proxy = s.shared.proxy)
    (hpc : pendingId pc = some s.shared.nextSubscriberId) :
    IdInv ⟨s.pool, sh, Function.update s.pc t pc, s.faulted⟩ := by
  have hvalue : s.shared.nextSubscriberId.toNat = s.shared.nextSubscribe + 1 := by
    rw [hinv.next, UInt64.toNat_ofNat', Nat.mod_eq_of_lt]
    omega
  -- An id that was taken before is at most `nextSubscribe`, so it is not the new one.
  have hfresh : ∀ id : UInt64, id.toNat ≤ s.shared.nextSubscribe →
      id ≠ s.shared.nextSubscriberId := by
    rintro id hle rfl
    omega
  refine ⟨?_, ?_, ?_, ?_, ?_, ?_⟩
  · show sh.nextSubscriberId = UInt64.ofNat (sh.nextSubscribe + 1)
    rw [hid, hnext, hinv.next]
    simp
  · refine forall_update (P := fun (_ : Tid n) pc => ∀ id, pendingId pc = some id →
      id.toNat ≤ sh.nextSubscribe) ?_ ?_
    · intro id h
      rw [hpc] at h
      obtain rfl := Option.some.inj h
      omega
    · intro t' _ id h
      have hle := hinv.pending t' id h
      omega
  · intro x hx
    show (sh.proxy x).id.toNat ≤ sh.nextSubscribe
    rw [hproxy, hnext]
    exact Nat.le_succ_of_le (hinv.taken x (hproxies ▸ hx))
  · intro t₁ t₂ id h₁ h₂
    by_cases ht₁ : t₁ = t <;> by_cases ht₂ : t₂ = t
    · rw [ht₁, ht₂]
    · simp only [ht₁, Function.update_self, Function.update_of_ne ht₂, hpc] at h₁ h₂
      obtain rfl := Option.some.inj h₁
      exact absurd rfl (hfresh _ (hinv.pending t₂ _ h₂))
    · simp only [ht₂, Function.update_self, Function.update_of_ne ht₁, hpc] at h₁ h₂
      obtain rfl := Option.some.inj h₂
      exact absurd rfl (hfresh _ (hinv.pending t₁ _ h₁))
    · simp only [Function.update_of_ne ht₁, Function.update_of_ne ht₂] at h₁ h₂
      exact hinv.pendingUnique t₁ t₂ id h₁ h₂
  · refine forall_update (P := fun (_ : Tid n) pc => ∀ id, pendingId pc = some id →
      ∀ x, x < sh.nextProxy → (sh.proxy x).id ≠ id) ?_ ?_
    · intro id h x hx
      rw [hpc] at h
      obtain rfl := Option.some.inj h
      rw [hproxies] at hx
      rw [hproxy]
      exact hfresh _ (hinv.taken x hx)
    · intro t' _ id h x hx
      rw [hproxies] at hx
      rw [hproxy]
      exact hinv.pendingFresh t' id h x hx
  · intro x y hx hy h
    have h : (sh.proxy x).id = (sh.proxy y).id := h
    rw [hproxy] at h
    exact hinv.unique x y (hproxies ▸ hx) (hproxies ▸ hy) h

/-- A new proxy gets the id of its subscribe, which has it no longer. -/
theorem IdInv.newProxy {s : State n} (hinv : IdInv s) {t : Tid n} {id : UInt64} {ch : Nat}
    {pc : Pc} (hold : pendingId (s.pc t) = some id) (hpc : pendingId pc = none) :
    IdInv ⟨s.pool, s.shared.newProxy id ch, Function.update s.pc t pc, s.faulted⟩ := by
  have hnew : ((s.shared.newProxy id ch).proxy s.shared.nextProxy).id = id := by
    simp [Shared.newProxy, Shared.setProxy]
  have hkeep : ∀ x, x < s.shared.nextProxy →
      ((s.shared.newProxy id ch).proxy x).id = (s.shared.proxy x).id := by
    intro x hx
    have h : (s.shared.newProxy id ch).proxy x = s.shared.proxy x :=
      Function.update_of_ne (Nat.ne_of_lt hx) _ _
    rw [h]
  have hcases : ∀ x, x < s.shared.nextProxy + 1 → x < s.shared.nextProxy ∨
      x = s.shared.nextProxy := fun x hx => Nat.lt_succ_iff_lt_or_eq.mp hx
  -- The other subscribes under way are the old ones.
  have hback : ∀ t' id', pendingId (Function.update s.pc t pc t') = some id' →
      t' ≠ t ∧ pendingId (s.pc t') = some id' := by
    intro t' id' h
    by_cases ht : t' = t
    · rw [ht, Function.update_self, hpc] at h
      cases h
    · rw [Function.update_of_ne ht] at h
      exact ⟨ht, h⟩
  refine ⟨hinv.next, ?_, ?_, ?_, ?_, ?_⟩
  · intro t' id' h
    exact hinv.pending t' id' (hback t' id' h).2
  · intro x hx
    show ((s.shared.newProxy id ch).proxy x).id.toNat ≤ s.shared.nextSubscribe
    rcases hcases x hx with hx | rfl
    · rw [hkeep x hx]
      exact hinv.taken x hx
    · rw [hnew]
      exact hinv.pending t id hold
  · intro t₁ t₂ id' h₁ h₂
    exact hinv.pendingUnique t₁ t₂ id' (hback t₁ id' h₁).2 (hback t₂ id' h₂).2
  · intro t' id' h x hx
    show ((s.shared.newProxy id ch).proxy x).id ≠ id'
    obtain ⟨ht, h⟩ := hback t' id' h
    rcases hcases x hx with hx | rfl
    · rw [hkeep x hx]
      exact hinv.pendingFresh t' id' h x hx
    · rw [hnew]
      rintro rfl
      exact ht (hinv.pendingUnique t' t id h hold)
  · intro x y hx hy h
    have h : ((s.shared.newProxy id ch).proxy x).id = ((s.shared.newProxy id ch).proxy y).id := h
    rcases hcases x hx with hx | rfl <;> rcases hcases y hy with hy | rfl
    · rw [hkeep x hx, hkeep y hy] at h
      exact hinv.unique x y hx hy h
    · rw [hkeep x hx, hnew] at h
      exact absurd h (hinv.pendingFresh t id hold x hx)
    · rw [hkeep y hy, hnew] at h
      exact absurd h.symm (hinv.pendingFresh t id hold y hy)
    · rfl

/-- The number of subscribes does not fall. -/
theorem ThreadStep.nextSubscribe_le {t : Tid n} {sh sh' : Shared n} {pc pc' : Pc}
    {e : Option (Event n)} (h : ThreadStep t sh pc sh' pc' e) :
    sh.nextSubscribe ≤ sh'.nextSubscribe := by
  rcases h.subscriberId with ⟨-, hnext, -⟩ | ⟨-, hnext, -⟩ <;> omega

/-- A step of a thread keeps `IdInv`. -/
theorem idInv_thread {s : State n} (hinv : IdInv s) {t : Tid n} {sh : Shared n} {pc : Pc}
    {e : Option (Event n)} (hstep : ThreadStep t s.shared (s.pc t) sh pc e)
    (hobject : ObjectStep t s.shared (s.pc t) sh pc e) (hbound : sh.nextSubscribe < 2 ^ 64) :
    IdInv ⟨s.pool, sh, Function.update s.pc t pc, s.faulted⟩ := by
  rcases hstep.subscriberId with ⟨hid, hnext, hproxies, hproxy, hpc⟩ | ⟨hid, hnext, hpending⟩
  · exact hinv.take hid hnext hbound hproxies hproxy hpc
  · have hpcs : ∀ t' id, pendingId (Function.update s.pc t pc t') = some id →
        pendingId (s.pc t') = some id :=
      forall_update (P := fun t' pc => ∀ id, pendingId pc = some id →
        pendingId (s.pc t') = some id) hpending fun _ _ _ h => h
    cases hobject with
    | newProxy name id ch hpc hsh hpc' he =>
        subst hsh hpc'
        exact hinv.newProxy (by rw [hpc]; rfl) rfl
    | insertLast name id ch x hpc hsh hpc' he =>
        subst hsh
        exact hinv.same rfl rfl rfl (fun _ _ => rfl) hpcs
    | unlink k thenFree ch i hpc hsh hpc' he =>
        subst hsh
        exact hinv.same rfl rfl rfl (fun _ _ => rfl) hpcs
    | newSubscription name id x hpc hsh hpc' he =>
        subst hsh
        exact hinv.same rfl rfl rfl (fun _ _ => rfl) hpcs
    | other hsame hhand hlisted he =>
        exact hinv.same hid hnext hsame.nextProxy (fun x _ => hsame.proxyId x) hpcs

/-- A program point of `inCall` is not in a subscribe. -/
theorem pendingId_of_inCall {pc : Pc} (h : inCall pc = true) : pendingId pc = none := by
  rcases inCall_cases h with rfl | ⟨arg, rfl⟩ | rfl | ⟨arg, rfl⟩ <;> rfl

/-- `IdInv` holds in every state of a run with fewer than 2^64 subscribes. -/
theorem idInv_of_run {tr : List (Event n)} {s : State n}
    (h : (machine n capacity hcap).RunIf AllocationsSucceed tr s)
    (hbound : s.shared.nextSubscribe < 2 ^ 64) : IdInv s := by
  refine invariant_of_run (I := fun _ s => s.shared.nextSubscribe < 2 ^ 64 → IdInv s)
    ?_ ?_ ?_ ?_ h hbound
  · intro _
    constructor <;> simp [init, pendingId]
  · intro tr s b pool t pc e _ hinv _ _ hpc hbound
    refine (hinv hbound).same rfl rfl rfl (fun _ _ => rfl) ?_
    refine forall_update (P := fun t' pc => ∀ id, pendingId pc = some id →
      pendingId (s.pc t') = some id) ?_ fun _ _ _ h => h
    intro id hid
    rw [pendingId_of_inCall hpc] at hid
    cases hid
  · intro tr s t sh pc e hrun hinv hstep hbound
    exact idInv_thread (hinv (Nat.lt_of_le_of_lt hstep.nextSubscribe_le hbound)) hstep
      (hstep.objectStep (fresh_of_run hrun _ le_rfl).2) hbound
  · intro tr s t hinv hbound
    exact (hinv hbound).same rfl rfl rfl (fun _ _ => rfl) fun _ _ h => h

/-! ### Presence -/

/-- An unsubscribe of the subscription with the proxy `x` has been called. -/
def Unsubscribing (tr : List (Event n)) (x : Nat) : Prop :=
  ∃ t k, .unsubscribeCall t k ∈ tr ∧ Owned tr k x

/-- The call of an unsubscribe is not undone. -/
theorem Unsubscribing.append {tr tr' : List (Event n)} {x : Nat} (h : Unsubscribing tr x) :
    Unsubscribing (tr ++ tr') x := by
  obtain ⟨t, k, hcall, howned⟩ := h
  exact ⟨t, k, List.mem_append_left _ hcall, howned.append⟩

/-- Every proxy that is not being unsubscribed is active and in the list of its channel, or a
subscribe is about to put it there. -/
def Present (tr : List (Event n)) (s : State n) : Prop :=
  ∀ x, x < s.shared.nextProxy → ¬ Unsubscribing tr x →
    (s.shared.proxy x).active = true ∧
    (x ∈ (s.shared.channel (s.shared.proxy x).channel).subscriberProxies ∨
      ∃ t, notListed (s.pc t) = some ((s.shared.proxy x).channel, x))

/-- Only an unsubscribe clears the flag of a proxy: first through its own pointer, and then
when it frees the proxy it has found. -/
theorem ThreadStep.active {t : Tid n} {sh sh' : Shared n} {pc pc' : Pc} {e : Option (Event n)}
    (h : ThreadStep t sh pc sh' pc' e) {x : Nat} (hx : x < sh.nextProxy)
    (hactive : (sh.proxy x).active = true) :
    (sh'.proxy x).active = true ∨
    (∃ k, MessageBroker.unsubscribing pc = some k ∧ (sh.subscription k).proxy = some x) ∨
    freedProxy pc = some x := by
  have hset : ∀ (y : Nat) (p : SubscriberProxy n), p.active = (sh.proxy y).active →
      ((sh.setProxy y p).proxy x).active = true := by
    intro y p hp
    rw [setProxy_proxy]
    by_cases hxy : x = y
    · subst hxy
      rw [if_pos rfl, hp]
      exact hactive
    · rw [if_neg hxy]
      exact hactive
  have hdeactivate : ∀ y, x ≠ y → ((sh.deactivate y).proxy x).active = true := by
    intro y hxy
    rw [Shared.deactivate, setProxy_proxy, if_neg hxy]
    exact hactive
  cases h with
  | deactivate y hy =>
      by_cases hxy : x = y
      · subst hxy
        exact Or.inr (Or.inl ⟨_, rfl, hy⟩)
      · exact Or.inl (hdeactivate y hxy)
  | freeDeactivate ch i y =>
      by_cases hxy : x = y
      · subst hxy
        exact Or.inr (Or.inr rfl)
      · exact Or.inl (hdeactivate y hxy)
  | newProxy ch =>
      left
      have hold : ∀ id, (sh.newProxy id ch).proxy x = sh.proxy x :=
        fun id => Function.update_of_ne (Nat.ne_of_lt hx) _ _
      rw [hold]
      exact hactive
  | put ch i y => exact Or.inl (hset y _ (by rfl))
  | taskLockInbox ch i y hfree => exact Or.inl (hset y _ (by rfl))
  | taskSignal ch i y waiting => exact Or.inl (hset y _ (by rfl))
  | taskUnlockInbox ch i y => exact Or.inl (hset y _ (by rfl))
  | unsubscribeInbox y p u u' hp hinbox hu => exact Or.inl (hset y p hp.active)
  | freeInbox ch i y p f f' hp hinbox hf => exact Or.inl (hset y p hp.active)
  | freeRelease ch i y => exact Or.inl (hset y _ (by rfl))
  | receiveInbox y p hp hinbox hret => exact Or.inl (hset y p hp.active)
  | got y => exact Or.inl (hset y _ (by rfl))
  | taskMore hg => cases hg <;> exact Or.inl hactive
  | taskFound hg => cases hg; exact Or.inl hactive
  | subscribeMore hg => cases hg <;> exact Or.inl hactive
  | subscribeFound hg => cases hg; exact Or.inl hactive
  | _ => exact Or.inl hactive

/-- An unsubscribe takes out the proxy of its own subscription. -/
theorem unsubscribing_of_target {tr : List (Event n)} {s : State n} (hid : IdInv s)
    (hlist : ListInv s) (howner : OwnerInv tr s) (htarget : TargetInv tr s) {t : Tid n}
    {k ch i x : Nat} (h : targetOf (s.pc t) = some (k, ch, i))
    (hx : (s.shared.channel ch).subscriberProxies[i]? = some x) : Unsubscribing tr x := by
  obtain ⟨y, hy, hyid, -⟩ := htarget.target t k ch i h
  obtain rfl : x = y := Option.some.inj (hx.symm.trans hy)
  obtain ⟨⟨t', hcall⟩, hk⟩ := htarget.called t k (channelHeld_of_target h).2
  obtain ⟨z, t₁, name, hz⟩ := howner.owner k hk
  obtain ⟨-, hzlt, hzid, -⟩ := howner.owned t₁ k z name hz
  have hxlt := hlist.bound ch x (List.mem_of_getElem? hx)
  obtain rfl := hid.unique x z hxlt hzlt (hyid.trans hzid)
  exact ⟨t', k, hcall, t₁, name, hz⟩

/-- The proxy that an unsubscribe is freeing is the one it has found. -/
theorem targetOf_of_freedProxy {pc : Pc} {x : Nat} (h : freedProxy pc = some x) :
    ∃ k ch i, targetOf pc = some (k, ch, i) := by
  unfold freedProxy at h
  split at h
  · exact ⟨_, _, _, rfl⟩
  · cases h

/-- A step of a thread keeps a proxy active until an unsubscribe of its subscription. -/
theorem active_thread {tr : List (Event n)} {s : State n} (hid : IdInv s) (hlist : ListInv s)
    (howner : OwnerInv tr s) (htarget : TargetInv tr s) {t : Tid n} {sh : Shared n} {pc : Pc}
    {e : Option (Event n)} (hstep : ThreadStep t s.shared (s.pc t) sh pc e) {x : Nat}
    (hx : x < s.shared.nextProxy) (hnot : ¬ Unsubscribing tr x)
    (hactive : (s.shared.proxy x).active = true) : (sh.proxy x).active = true := by
  rcases hstep.active hx hactive with h | ⟨k, hk, hpointer⟩ | hfreed
  · exact h
  · obtain ⟨⟨t', hcall⟩, -⟩ := htarget.called t k hk
    exact absurd ⟨t', k, hcall, howner.pointer k x hpointer⟩ hnot
  · obtain ⟨k, ch, i, htg⟩ := targetOf_of_freedProxy hfreed
    obtain ⟨y, hy, -, hfree⟩ := htarget.target t k ch i htg
    obtain rfl := hfree x hfreed
    exact absurd (unsubscribing_of_target hid hlist howner htarget htg hy) hnot

/-- A proxy that is in the list, or about to be put there, is so after a step of a thread,
unless the step takes it out. -/
theorem listed_thread {tr : List (Event n)} {s : State n} (hid : IdInv s) (hlist : ListInv s)
    (howner : OwnerInv tr s) (htarget : TargetInv tr s) {t : Tid n} {sh : Shared n} {pc : Pc}
    {e : Option (Event n)} (hobject : ObjectStep t s.shared (s.pc t) sh pc e) {x ch : Nat}
    (hnot : ¬ Unsubscribing tr x)
    (h : x ∈ (s.shared.channel ch).subscriberProxies ∨
      ∃ t', notListed (s.pc t') = some (ch, x)) :
    x ∈ (sh.channel ch).subscriberProxies ∨
      ∃ t', notListed (Function.update s.pc t pc t') = some (ch, x) := by
  -- A thread that keeps its program point or has the same proxy in hand.
  have hhands : (∀ r, notListed (s.pc t) = some r → notListed pc = some r) →
      (∃ t', notListed (s.pc t') = some (ch, x)) →
      ∃ t', notListed (Function.update s.pc t pc t') = some (ch, x) := by
    rintro hkeep ⟨t', ht'⟩
    refine ⟨t', ?_⟩
    by_cases htt : t' = t
    · subst htt
      rw [Function.update_self]
      exact hkeep _ ht'
    · rw [Function.update_of_ne htt]
      exact ht'
  cases hobject with
  | newProxy name id ch' hpc hsh hpc' he =>
      subst hsh
      exact h.imp_right (hhands (by rw [hpc]; rintro r ⟨⟩))
  | insertLast name id ch' y hpc hsh hpc' he =>
      subst hsh
      rcases h with h | ⟨t', ht'⟩
      · left
        rw [setChannel_channel]
        by_cases hch : ch = ch'
        · subst hch
          rw [if_pos rfl]
          exact List.mem_append_left _ h
        · rw [if_neg hch]
          exact h
      · by_cases htt : t' = t
        · subst htt
          rw [hpc] at ht'
          obtain ⟨rfl, rfl⟩ : ch' = ch ∧ y = x := by simpa [notListed] using ht'
          left
          rw [setChannel_channel, if_pos rfl]
          exact List.mem_append_right _ (List.mem_singleton_self y)
        · exact Or.inr ⟨t', by rw [Function.update_of_ne htt]; exact ht'⟩
  | unlink k thenFree ch' i hpc hsh hpc' he =>
      subst hsh
      refine h.imp ?_ (hhands (by rw [hpc]; rintro r ⟨⟩))
      intro hmem
      rw [setChannel_channel]
      by_cases hch : ch = ch'
      · subst hch
        rw [if_pos rfl]
        -- The position that goes is not the position of `x`.
        obtain ⟨j, hj⟩ := List.mem_iff_getElem?.mp hmem
        have hji : j ≠ i := by
          rintro rfl
          exact hnot (unsubscribing_of_target hid hlist howner htarget (t := t) (k := k)
            (by rw [hpc]; rfl) hj)
        exact List.mem_eraseIdx_iff_getElem?.mpr ⟨j, hji, hj⟩
      · rw [if_neg hch]
        exact hmem
  | newSubscription name id y hpc hsh hpc' he =>
      subst hsh
      exact h.imp_right (hhands (by rw [hpc]; rintro r ⟨⟩))
  | other hsame hhand hlisted he =>
      refine h.imp ?_ (hhands fun r hr => by rw [hlisted]; exact hr)
      intro hmem
      rw [hsame.lists ch]
      exact hmem

/-- A step of a thread keeps `Present`. -/
theorem present_thread {tr : List (Event n)} {s : State n} (hinv : Present tr s) (hid : IdInv s)
    (hlist : ListInv s) (howner : OwnerInv tr s) (htarget : TargetInv tr s) {t : Tid n}
    {sh : Shared n} {pc : Pc} {e : Option (Event n)}
    (hstep : ThreadStep t s.shared (s.pc t) sh pc e)
    (hobject : ObjectStep t s.shared (s.pc t) sh pc e) :
    Present (tr ++ e.toList) ⟨s.pool, sh, Function.update s.pc t pc, s.faulted⟩ := by
  intro x hx hnot
  have hnot : ¬ Unsubscribing tr x := fun h => hnot h.append
  show (sh.proxy x).active = true ∧ (x ∈ (sh.channel (sh.proxy x).channel).subscriberProxies ∨
    ∃ t', notListed (Function.update s.pc t pc t') = some ((sh.proxy x).channel, x))
  by_cases hold : x < s.shared.nextProxy
  · obtain ⟨hactive, hlisted⟩ := hinv x hold hnot
    rw [(hobject.frame.2.1.2 x hold).2]
    exact ⟨active_thread hid hlist howner htarget hstep hold hnot hactive,
      listed_thread hid hlist howner htarget hobject hnot hlisted⟩
  · -- The proxy is the one that this step has made.
    cases hobject with
    | newProxy name id ch hpc hsh hpc' he =>
        subst hsh hpc'
        obtain rfl : x = s.shared.nextProxy :=
          Nat.le_antisymm (Nat.lt_succ_iff.mp hx) (Nat.le_of_not_lt hold)
        have hnew : (s.shared.newProxy id ch).proxy s.shared.nextProxy
            = ⟨id, [], none, ∅, true, false, ch⟩ := Function.update_self _ _ _
        rw [hnew]
        exact ⟨rfl, Or.inr ⟨t, by rw [Function.update_self]; rfl⟩⟩
    | insertLast name id ch y hpc hsh hpc' he =>
        subst hsh
        exact absurd hx hold
    | unlink k thenFree ch i hpc hsh hpc' he =>
        subst hsh
        exact absurd hx hold
    | newSubscription name id y hpc hsh hpc' he =>
        subst hsh
        exact absurd hx hold
    | other hsame hhand hlisted he => exact absurd (hsame.nextProxy ▸ hx) hold

/-- `Present` holds in every state of a run with fewer than 2^64 subscribes. -/
theorem present_of_run {tr : List (Event n)} {s : State n}
    (h : (machine n capacity hcap).RunIf AllocationsSucceed tr s)
    (hbound : s.shared.nextSubscribe < 2 ^ 64) : Present tr s := by
  refine invariant_of_run (I := fun tr s => s.shared.nextSubscribe < 2 ^ 64 → Present tr s)
    ?_ ?_ ?_ (fun _ _ _ hinv => hinv) h hbound
  · intro _ x hx
    exact absurd hx (Nat.not_lt_zero x)
  · intro tr s b pool t pc e _ hinv _ hold _ hbound x hx hnot
    obtain ⟨hactive, hlisted⟩ := hinv hbound x hx fun h => hnot h.append
    refine ⟨hactive, hlisted.imp_right ?_⟩
    rintro ⟨t', ht'⟩
    -- A thread that the pool moves has no proxy in hand.
    have htt : t' ≠ t := by
      rintro rfl
      rw [(handOf_of_inCall hold).2] at ht'
      cases ht'
    exact ⟨t', by simpa only [Function.update_of_ne htt] using ht'⟩
  · intro tr s t sh pc e hrun hinv hstep hbound
    have hbound' := Nat.lt_of_le_of_lt hstep.nextSubscribe_le hbound
    exact present_thread (hinv hbound') (idInv_of_run hrun hbound') (listInv_of_run hrun)
      (ownerInv_of_run hrun) (targetInv_of_run hrun) hstep
      (hstep.objectStep (fresh_of_run hrun _ le_rfl).2)

/-- Two subscriptions have different ids as long as fewer than 2^64 subscribes were made. -/
theorem subscription_id_inj {tr : List (Event n)} {s : State n}
    (h : (machine n capacity hcap).RunIf AllocationsSucceed tr s)
    (hbound : s.shared.nextSubscribe < 2 ^ 64) {k k' : Nat} (hk : k < s.shared.nextSubscription)
    (hk' : k' < s.shared.nextSubscription)
    (hid : (s.shared.subscription k).id = (s.shared.subscription k').id) : k = k' := by
  have howner := ownerInv_of_run h
  obtain ⟨x, hx⟩ := howner.owner k hk
  obtain ⟨x', hx'⟩ := howner.owner k' hk'
  rw [howner.unique k k' x x' hx hx']
  obtain ⟨t, name, hmem⟩ := hx
  obtain ⟨t', name', hmem'⟩ := hx'
  obtain ⟨-, hlt, heq, -⟩ := howner.owned t k x name hmem
  obtain ⟨-, hlt', heq', -⟩ := howner.owned t' k' x' name' hmem'
  refine (idInv_of_run h hbound).unique x x' hlt hlt' ?_
  rw [← heq, ← heq', hid]

/-- The number of subscribes does not fall in a step of the broker. -/
theorem nextSubscribe_le_of_next {tr : List (Event n)} {s s' : State n} {a : Action n}
    {e : Option (Event n)} (hrun : (machine n capacity hcap).RunIf AllocationsSucceed tr s)
    (hK : AllocationsSucceed s a) (h : next s a = some (s', e)) :
    s.shared.nextSubscribe ≤ s'.shared.nextSubscribe := by
  rcases next_cases h with ⟨_, _, _, _, _, _, _, _, _, _, rfl⟩ | ⟨t, move, sh, pc, rfl, hf, rfl⟩ |
      ⟨_, _, rfl⟩
  · exact le_refl _
  · exact (threadFunction_step hf (by rintro rfl; exact hK) (by rintro rfl; exact hK)
      (onFailurePath_of_run hrun t)).nextSubscribe_le
  · exact le_refl _

end

end Miez.Proofs.MessageBroker
