import Miez.Proofs.MessageBroker.Names

/-!
# `Miez.Proofs.MessageBroker.Released`: a released proxy is in no list

The mutex of a channel guards its list in every run, with or without failing allocations. An
unsubscribe releases a proxy and takes it out of the list in two steps, and it holds the mutex of
the channel from the search to the unlink. So a proxy that is in a list and has been released is
the one that some thread is about to unlink, and no thread that has found a proxy in a list finds
it released. A proxy that a failing subscribe releases has never been in a list.
-/

set_option autoImplicit false

namespace Miez.Proofs.MessageBroker

open Miez.Lib
open Miez.MessageBroker
open Miez.ThreadPool (Tid)

section
variable {n : Nat} {capacity : UInt64} {hcap : capacity ≠ 0}

/-! ### The mutexes of the channels in any run -/

section
variable {t : Tid n} {sh sh' : Shared n} {pc pc' : Pc} {e : Option (Event n)}

/-- What a step of a failing call does to the mutex of a channel. -/
theorem FailStep.channelLockStep (h : FailStep t sh pc sh' pc' e) (ch : Nat) :
    LockStep t (channelHeld pc = some ch) (channelHeld pc' = some ch) (sh.channel ch).mutex
      (sh'.channel ch).mutex := by
  cases h with
  | taskMore hg | taskFailed hg | subscribeMore hg | subscribeFailed hg =>
      exact .keep (hg.channelMutex ch) Iff.rfl
  | skip ch' i x p hp => rcases hp with rfl | rfl <;> exact .keep rfl Iff.rfl
  | unlockFailed ch' x => exact lockStep_of_release rfl rfl ch
  | _ => exact .keep rfl Iff.rfl

/-- A failing call creates no channel object and locks none. -/
theorem FailStep.channel (h : FailStep t sh pc sh' pc' e) :
    sh'.nextChannel = sh.nextChannel ∧
      ∀ ch, (sh.channel ch).mutex = none → (sh'.channel ch).mutex = none := by
  have hunlock : ∀ ch' ch, (sh.channel ch).mutex = none →
      ((sh.unlockChannel ch').channel ch).mutex = none := by
    intro ch' ch hfree
    rw [Shared.unlockChannel, setChannel_channel]
    by_cases hch : ch = ch'
    · rw [if_pos hch]
    · rw [if_neg hch]
      exact hfree
  cases h with
  | taskMore hg | taskFailed hg | subscribeMore hg | subscribeFailed hg =>
      exact ⟨hg.namesSame.nextChannel, fun ch hfree => (hg.channelMutex ch).trans hfree⟩
  | unlockFailed ch x => exact ⟨rfl, hunlock ch⟩
  | _ => exact ⟨rfl, fun _ hfree => hfree⟩

/-- A failing call has found no new channel. -/
theorem FailStep.unsubscribeChannel (h : FailStep t sh pc sh' pc' e) {ch : Nat}
    (hch : MessageBroker.unsubscribeChannel pc' = some ch) :
    MessageBroker.unsubscribeChannel pc = some ch := by
  cases h with
  | unsubscribeSearch ch' => exact hch
  | _ => cases hch

end

/-- The mutexes of the channel objects, and the channels of the unsubscribes. -/
structure ChannelInv (s : State n) : Prop where
  lock : ∀ ch, LockInv (fun t => channelHeld (s.pc t) = some ch) (s.shared.channel ch).mutex
  fresh : ∀ ch, s.shared.nextChannel ≤ ch → (s.shared.channel ch).mutex = none
  unsubscribe : ∀ t ch, unsubscribeChannel (s.pc t) = some ch → ch < s.shared.nextChannel

/-- A thread has no channel of an unsubscribe in hand at a program point of `inCall`. -/
theorem unsubscribeChannel_of_inCall {pc : Pc} (h : inCall pc = true) :
    unsubscribeChannel pc = none := by
  rcases inCall_cases h with rfl | ⟨arg, rfl⟩ | rfl | ⟨arg, rfl⟩ <;> rfl

/-- A step of a thread leaves the channel objects unlocked that do not exist yet. -/
theorem ChannelInv.fresh_thread {tr : List (Event n)} {s : State n} (hinv : ChannelInv s)
    (hname : NameInv tr s) {t : Tid n} {sh : Shared n} {pc : Pc} {e : Option (Event n)}
    (hstep : ThreadStep t s.shared (s.pc t) sh pc e) {ch : Nat} (hch : sh.nextChannel ≤ ch) :
    (sh.channel ch).mutex = none := by
  have hnext := hstep.channelName.1
  have hsame : sh.channel ch = s.shared.channel ch := by
    by_contra hne
    rcases hstep.channel_of_ne hne with ⟨name, hfound⟩ | hun | ⟨rfl, hsucc⟩
    · have hlt := (hname.found t name ch hfound).1
      omega
    · have hlt := hinv.unsubscribe t ch hun
      omega
    · omega
  rw [hsame]
  exact hinv.fresh ch (hnext.trans hch)

/-- `ChannelInv` holds in every state of a run. -/
theorem channelInv_of_run {K : State n → Action n → Prop} {tr : List (Event n)} {s : State n}
    (h : (machine n capacity hcap).RunIf K tr s) : ChannelInv s := by
  refine h.induction (I := fun _ s => ChannelInv s) ?_ ?_
  · refine ⟨fun ch t => ?_, fun _ _ => rfl, fun t ch hch => (by cases hch)⟩
    simp [machine, init, channelHeld]
  · intro tr s a s' e hrun hinv _ hnext
    have hname := nameInv_of_run hrun
    rcases next_cases hnext with ⟨b, pool, t, pc, e', -, -, rfl, hold, hnew, rfl⟩ |
        ⟨t, move, sh, pc, rfl, hf, rfl⟩ | ⟨t, rfl, rfl⟩
    · refine ⟨fun ch => ?_, hinv.fresh, ?_⟩
      · refine (hinv.lock ch).update (P := fun pc => channelHeld pc = some ch) t pc (.keep rfl ?_)
        rw [channelHeld_of_inCall hold, channelHeld_of_inCall hnew]
      · refine forall_update (P := fun _ pc => ∀ ch, unsubscribeChannel pc = some ch →
          ch < s.shared.nextChannel) ?_ fun t' _ => hinv.unsubscribe t'
        intro ch hch
        rw [unsubscribeChannel_of_inCall hnew] at hch
        cases hch
    · rcases threadFunction_cases hf with hstep | ⟨hstep, -⟩
      · have hle := hstep.channelName.1
        refine ⟨fun ch => ?_, fun ch hch => hinv.fresh_thread hname hstep hch, ?_⟩
        · exact (hinv.lock ch).update (P := fun pc => channelHeld pc = some ch) t pc
            (hstep.channelLockStep (hinv.fresh _ le_rfl) ch)
        · refine forall_update (P := fun _ pc => ∀ ch, unsubscribeChannel pc = some ch →
            ch < sh.nextChannel) ?_ fun t' _ ch hch => (hinv.unsubscribe t' ch hch).trans_le hle
          intro ch hch
          rcases hstep.unsubscribeChannel hch with hold | ⟨name, hget⟩
          · exact (hinv.unsubscribe t ch hold).trans_le hle
          · exact (hname.entry name ch hget).1.trans_le hle
      · obtain ⟨hnextChannel, hmutex⟩ := hstep.channel
        refine ⟨fun ch => ?_, fun ch hch => ?_, ?_⟩
        · exact (hinv.lock ch).update (P := fun pc => channelHeld pc = some ch) t pc
            (hstep.channelLockStep ch)
        · exact hmutex ch (hinv.fresh ch (hnextChannel ▸ hch))
        · show ∀ t' ch, unsubscribeChannel (Function.update s.pc t pc t') = some ch →
            ch < sh.nextChannel
          rw [hnextChannel]
          refine forall_update (P := fun _ pc => ∀ ch, unsubscribeChannel pc = some ch →
            ch < s.shared.nextChannel) ?_ fun t' _ => hinv.unsubscribe t'
          exact fun ch hch => hinv.unsubscribe t ch (hstep.unsubscribeChannel hch)
    · exact ⟨hinv.lock, hinv.fresh, hinv.unsubscribe⟩

/-! ### What a step does to the released proxies -/

/-- The channel, the position and the proxy that a thread has found in the list of the channel. -/
def position : Pc → Option (Nat × Nat × Nat)
  | .publisherTask _ p =>
      match p with
      | .testActive ch i x | .enqueue ch i x | .lockInbox ch i x | .signal ch i x
      | .unlockInbox ch i x => some (ch, i, x)
      | _ => none
  | .unsubscribe _ _ (.freeProxy ch i x _) => some (ch, i, x)
  | _ => none

/-- The channel and the position whose proxy a thread has released and has still to unlink. -/
def unlinking : Pc → Option (Nat × Nat)
  | .unsubscribe _ _ (.unlink ch i) => some (ch, i)
  | _ => none

/-- The new proxy of a subscribe that has not put it into a list, or could not. -/
def outsideProxy : Pc → Option Nat
  | .subscribe _ _ p =>
      match p with
      | .lockChannel _ x | .insertLast _ x | .unlockFailed _ x | .freeProxy x _ => some x
      | _ => none
  | _ => none

/-- A thread releases the proxy `x`: an unsubscribe before it unlinks the proxy, or a subscribe that
fails. -/
inductive Releases (x : Nat) : Pc → Pc → Prop where
  | unsubscribe (k : Nat) (thenFree : Bool) (ch i : Nat) :
      Releases x (.unsubscribe k thenFree (.freeProxy ch i x .release))
        (.unsubscribe k thenFree (.unlink ch i))
  | subscribe (name : CString) (id : UInt64) :
      Releases x (.subscribe name id (.freeProxy x .release)) .idle

/-- What a step of a thread does to the released proxies and to what threads have found in
lists. -/
structure ReleaseStep (sh : Shared n) (pc : Pc) (sh' : Shared n) (pc' : Pc) : Prop where
  released : ∀ x, (sh'.proxy x).released = true →
    (sh.proxy x).released = true ∨ Releases x pc pc'
  position : ∀ r, position pc' = some r → MessageBroker.position pc = some r ∨
    ((sh.channel r.1).subscriberProxies[r.2.1]? = some r.2.2 ∧ sh' = sh)
  outside : ∀ x, outsideProxy pc' = some x → outsideProxy pc = some x ∨
    (x = sh.nextProxy ∧ ∃ id ch, sh' = sh.newProxy id ch)

section
variable {t : Tid n} {sh sh' : Shared n} {pc pc' : Pc} {e : Option (Event n)}

/-- A write that releases no proxy. -/
theorem setProxy_released {y : Nat} {p : SubscriberProxy n}
    (hp : p.released = (sh.proxy y).released) (x : Nat)
    (hx : ((sh.setProxy y p).proxy x).released = true) : (sh.proxy x).released = true := by
  rw [setProxy_proxy] at hx
  by_cases hxy : x = y
  · rw [if_pos hxy, hp] at hx
    rwa [hxy]
  · rwa [if_neg hxy] at hx

/-- A step that leaves the lists, the proxies and what the thread has found alone. -/
theorem releaseStep_of_same (hproxy : sh'.proxy = sh.proxy)
    (hposition : position pc' = none ∨ position pc' = position pc)
    (houtside : outsideProxy pc' = none ∨ outsideProxy pc' = outsideProxy pc) :
    ReleaseStep sh pc sh' pc' := by
  refine ⟨fun x hx => Or.inl (hproxy ▸ hx), ?_, ?_⟩
  · intro r hr
    rcases hposition with h | h
    · rw [h] at hr
      cases hr
    · exact Or.inl (h ▸ hr)
  · intro x hx
    rcases houtside with h | h
    · rw [h] at hx
      cases hx
    · exact Or.inl (h ▸ hx)

/-- The same with a write to a proxy that does not release it. -/
theorem releaseStep_of_setProxy {y : Nat} {p : SubscriberProxy n}
    (hp : p.released = (sh.proxy y).released)
    (hposition : position pc' = none ∨ position pc' = position pc)
    (houtside : outsideProxy pc' = none ∨ outsideProxy pc' = outsideProxy pc) :
    ReleaseStep sh pc (sh.setProxy y p) pc' := by
  refine ⟨fun x hx => Or.inl (setProxy_released hp x hx), ?_, ?_⟩
  · intro r hr
    rcases hposition with h | h
    · rw [h] at hr
      cases hr
    · exact Or.inl (h ▸ hr)
  · intro x hx
    rcases houtside with h | h
    · rw [h] at hx
      cases hx
    · exact Or.inl (h ▸ hx)

/-- The write that releases a proxy. -/
theorem setProxy_release (y x : Nat)
    (hx : ((sh.setProxy y { sh.proxy y with released := true }).proxy x).released = true) :
    (sh.proxy x).released = true ∨ x = y := by
  by_cases hxy : x = y
  · exact Or.inr hxy
  · rw [setProxy_proxy, if_neg hxy] at hx
    exact Or.inl hx

/-- A step without a failing allocation. -/
theorem ThreadStep.releaseStep (h : ThreadStep t sh pc sh' pc' e) : ReleaseStep sh pc sh' pc' := by
  cases h with
  | taskMore hg | taskFound hg | subscribeMore hg | subscribeFound hg =>
      exact releaseStep_of_same hg.proxy.1 (Or.inl rfl) (Or.inl rfl)
  | nextActive ch i x hx =>
      refine ⟨fun x hx => Or.inl hx, ?_, fun y hy => (by cases hy)⟩
      intro r hr
      obtain rfl : (ch, i, x) = r := Option.some.inj hr
      exact Or.inr ⟨hx, rfl⟩
  | searchHit ch i x hx hid =>
      refine ⟨fun x hx => Or.inl hx, ?_, fun y hy => (by cases hy)⟩
      intro r hr
      obtain rfl : (ch, i, x) = r := Option.some.inj hr
      exact Or.inr ⟨hx, rfl⟩
  | put ch i x | taskLockInbox ch i x hfree | taskSignal ch i x waiting | freeDeactivate ch i x =>
      exact releaseStep_of_setProxy rfl (Or.inr rfl) (Or.inl rfl)
  | taskUnlockInbox ch i x => exact releaseStep_of_setProxy rfl (Or.inl rfl) (Or.inl rfl)
  | deactivate x hx => exact releaseStep_of_setProxy rfl (Or.inl rfl) (Or.inl rfl)
  | got x => exact releaseStep_of_setProxy rfl (Or.inl rfl) (Or.inl rfl)
  | unsubscribeInbox x p u u' hp hinbox hu =>
      refine releaseStep_of_setProxy hp.released (Or.inl ?_) (Or.inl rfl)
      rcases hu with ⟨rfl, rfl⟩ | ⟨rfl, rfl⟩ | ⟨rfl, rfl⟩ <;> rfl
  | freeInbox ch i x p f f' hp hinbox hf =>
      exact releaseStep_of_setProxy hp.released (Or.inr rfl) (Or.inl rfl)
  | freeRelease ch i x =>
      refine ⟨?_, fun r hr => (by cases hr), fun y hy => (by cases hy)⟩
      intro y hy
      rcases setProxy_release x y hy with hold | rfl
      · exact Or.inl hold
      · exact Or.inr (.unsubscribe _ _ ch i)
  | newProxy ch =>
      refine ⟨?_, fun r hr => (by cases hr), ?_⟩
      · intro x hx
        left
        rw [show (sh.newProxy _ ch).proxy x = _ from setProxy_proxy _ _ _ _] at hx
        by_cases hnew : x = sh.nextProxy
        · rw [if_pos hnew] at hx
          cases hx
        · rwa [if_neg hnew] at hx
      · intro x hx
        obtain rfl : sh.nextProxy = x := Option.some.inj hx
        exact Or.inr ⟨rfl, _, ch, rfl⟩
  | unsubscribeTest u u' hu =>
      rcases hu with ⟨rfl, rfl⟩ | ⟨rfl, rfl | rfl⟩ <;>
        exact releaseStep_of_same rfl (Or.inl rfl) (Or.inl rfl)
  | unsubscribeInactive hret | clearProxy hret =>
      rcases hret with ⟨rfl, -⟩ | ⟨rfl, -⟩ <;>
        exact releaseStep_of_same rfl (Or.inl rfl) (Or.inl rfl)
  | receiveRead hret =>
      rcases hret with ⟨r', rfl, -⟩ | ⟨rfl, -⟩ <;>
        exact releaseStep_of_same rfl (Or.inl rfl) (Or.inl rfl)
  | receiveInbox x p hp hinbox hret =>
      rcases hret with ⟨r', rfl, -⟩ | ⟨rfl, -⟩ <;>
        exact releaseStep_of_setProxy hp.released (Or.inl rfl) (Or.inl rfl)
  | pendingRead hret =>
      rcases hret with ⟨rfl, -⟩ | ⟨rfl, -⟩ <;>
        exact releaseStep_of_same rfl (Or.inl rfl) (Or.inl rfl)
  | subscribeLock ch x hfree => exact releaseStep_of_same rfl (Or.inl rfl) (Or.inr rfl)
  | testActive ch i x => exact releaseStep_of_same rfl (Or.inr rfl) (Or.inl rfl)
  | _ => exact releaseStep_of_same rfl (Or.inl rfl) (Or.inl rfl)

/-- A step of a failing call. -/
theorem FailStep.releaseStep (h : FailStep t sh pc sh' pc' e) : ReleaseStep sh pc sh' pc' := by
  cases h with
  | taskMore hg | taskFailed hg | subscribeMore hg | subscribeFailed hg =>
      exact releaseStep_of_same hg.proxy.1 (Or.inl rfl) (Or.inl rfl)
  | insertLast ch x | unlockFailed ch x =>
      exact releaseStep_of_same rfl (Or.inl rfl) (Or.inr rfl)
  | freeDeactivate x => exact releaseStep_of_setProxy rfl (Or.inl rfl) (Or.inr rfl)
  | freeInbox x p f f' hp hinbox hf =>
      exact releaseStep_of_setProxy hp.released (Or.inl rfl) (Or.inr rfl)
  | freeRelease x =>
      refine ⟨?_, fun r hr => (by cases hr), fun y hy => (by cases hy)⟩
      intro y hy
      rcases setProxy_release x y hy with hold | rfl
      · exact Or.inl hold
      · exact Or.inr (.subscribe _ _)
  | _ => exact releaseStep_of_same rfl (Or.inl rfl) (Or.inl rfl)

/-- A step of a thread inside a broker function. -/
theorem threadFunction_releaseStep {move : Move n}
    (h : threadFunction t sh pc move = some (.step sh' pc' e)) : ReleaseStep sh pc sh' pc' := by
  rcases threadFunction_cases h with hstep | ⟨hstep, -⟩
  · exact hstep.releaseStep
  · exact hstep.releaseStep

end

/-! ### What a step does to the lists -/

/-- What a step of a thread does to the lists. The two steps that change one leave the proxies
alone. -/
inductive ListChange (sh : Shared n) (pc : Pc) (sh' : Shared n) (pc' : Pc) : Prop where
  | same (hlists : ∀ ch, (sh'.channel ch).subscriberProxies = (sh.channel ch).subscriberProxies)
      (hpc : unlinking pc = none)
  | insertLast (name : CString) (id : UInt64) (ch x : Nat)
      (hpc : pc = .subscribe name id (.insertLast ch x))
      (hpc' : pc' = .subscribe name id (.unlockChannel ch x))
      (hsh : sh' = sh.setChannel ch { sh.channel ch with
        subscriberProxies := (sh.channel ch).subscriberProxies ++ [x] })
  | unlink (k : Nat) (thenFree : Bool) (ch i : Nat)
      (hpc : pc = .unsubscribe k thenFree (.unlink ch i))
      (hpc' : pc' = .unsubscribe k thenFree (.unlockChannel ch))
      (hsh : sh' = sh.setChannel ch { sh.channel ch with
        subscriberProxies := (sh.channel ch).subscriberProxies.eraseIdx i })

section
variable {t : Tid n} {sh sh' : Shared n} {pc pc' : Pc} {e : Option (Event n)}

/-- A step of a thread inside a broker function changes the lists as listed. -/
theorem threadFunction_listChange {move : Move n}
    (h : threadFunction t sh pc move = some (.step sh' pc' e))
    (hfresh : (sh.channel sh.nextChannel).subscriberProxies = []) :
    ListChange sh pc sh' pc' := by
  rcases threadFunction_cases h with hstep | ⟨hstep, -⟩
  · cases hstep.objectStep hfresh with
    | newProxy name id ch hpc hsh hpc' he =>
        exact .same (fun ch' => by rw [hsh]; rfl) (by rw [hpc]; rfl)
    | insertLast name id ch x hpc hsh hpc' he => exact .insertLast name id ch x hpc hpc' hsh
    | unlink k thenFree ch i hpc hsh hpc' he => exact .unlink k thenFree ch i hpc hpc' hsh
    | newSubscription name id x hpc hsh hpc' he =>
        exact .same (fun ch' => by rw [hsh]; rfl) (by rw [hpc]; rfl)
    | other hsame hhand hlisted he =>
        -- the step at `unlink` is the one that takes the proxy out
        cases hun : unlinking pc with
        | none => exact .same hsame.lists hun
        | some r =>
            cases hstep with
            | unlink ch i => exact .unlink _ _ ch i rfl rfl rfl
            | unsubscribeTest u u' hu => rcases hu with ⟨rfl, -⟩ | ⟨rfl, -⟩ <;> cases hun
            | unsubscribeInbox x p u u' hp hinbox hu =>
                rcases hu with ⟨rfl, -⟩ | ⟨rfl, -⟩ | ⟨rfl, -⟩ <;> cases hun
            | _ => cases hun
  · refine .same hstep.failNames.same.objects.lists ?_
    cases hstep <;> rfl

end

/-! ### Released proxies in a run -/

/-- A thread that has found a proxy in a list holds the mutex of the channel. -/
theorem channelHeld_of_position {pc : Pc} {ch i x : Nat} (h : position pc = some (ch, i, x)) :
    channelHeld pc = some ch := by
  unfold position at h
  split at h
  · split at h <;> first | cases h; rfl | cases h
  · cases h
    rfl
  · cases h

/-- A thread that is about to unlink a proxy holds the mutex of the channel. -/
theorem channelHeld_of_unlinking {pc : Pc} {ch i : Nat} (h : unlinking pc = some (ch, i)) :
    channelHeld pc = some ch := by
  unfold unlinking at h
  split at h <;> cases h
  rfl

/-- A proxy outside the lists is in the hand of its subscribe. -/
theorem subscribeProxy_of_outside {pc : Pc} {x : Nat} (h : outsideProxy pc = some x) :
    subscribeProxy pc = some x := by
  unfold outsideProxy at h
  split at h
  · split at h <;> first | exact h | cases h
  · cases h

/-- What threads have found in lists is there, a released proxy is in a list only while a thread is
about to unlink it, and a proxy that is not in a list yet has not been released. -/
structure ReleasedInv (s : State n) : Prop where
  position : ∀ t ch i x, position (s.pc t) = some (ch, i, x) →
    (s.shared.channel ch).subscriberProxies[i]? = some x
  listed : ∀ ch x, x ∈ (s.shared.channel ch).subscriberProxies →
    (s.shared.proxy x).released = true → ∃ t i, unlinking (s.pc t) = some (ch, i) ∧
      (s.shared.channel ch).subscriberProxies[i]? = some x
  outside : ∀ t x, outsideProxy (s.pc t) = some x →
    (∀ ch, x ∉ (s.shared.channel ch).subscriberProxies) ∧ (s.shared.proxy x).released = false

section
variable {tr : List (Event n)} {s : State n} {t : Tid n} {sh : Shared n} {pc : Pc}

/-- A step that leaves the lists alone keeps `ReleasedInv`. -/
theorem ReleasedInv.same (hinv : ReleasedInv s) (hlist : ListInv s) (hpointer : PointerInv tr s)
    (hrelease : ReleaseStep s.shared (s.pc t) sh pc)
    (hlists : ∀ ch, (sh.channel ch).subscriberProxies = (s.shared.channel ch).subscriberProxies)
    (hpc : unlinking (s.pc t) = none) : ReleasedInv ⟨s.pool, sh, Function.update s.pc t pc, s.faulted⟩ := by
  refine ⟨?_, ?_, ?_⟩
  · refine forall_update (P := fun _ pc => ∀ ch i x, MessageBroker.position pc = some (ch, i, x) →
      (sh.channel ch).subscriberProxies[i]? = some x) ?_ ?_
    · intro ch i x hx
      rw [hlists]
      rcases hrelease.position _ hx with hold | ⟨hfound, -⟩
      · exact hinv.position t ch i x hold
      · exact hfound
    · intro t' _ ch i x hx
      rw [hlists]
      exact hinv.position t' ch i x hx
  · intro ch x hx hreleased
    have hmem : x ∈ (s.shared.channel ch).subscriberProxies := hlists ch ▸ hx
    show ∃ t' i, unlinking (Function.update s.pc t pc t') = some (ch, i) ∧
      (sh.channel ch).subscriberProxies[i]? = some x
    rw [hlists]
    rcases hrelease.released x hreleased with hold | hnew
    · obtain ⟨t', i, hun, hi⟩ := hinv.listed ch x hmem hold
      have hne : t' ≠ t := by
        rintro rfl
        rw [hpc] at hun
        cases hun
      exact ⟨t', i, by rwa [Function.update_of_ne hne], hi⟩
    · generalize hold : s.pc t = pc₀ at hnew
      cases hnew with
      | unsubscribe k thenFree ch' i =>
          have hi := hinv.position t ch' i x (by rw [hold]; rfl)
          obtain rfl : ch' = ch :=
            (hlist.home ch' x (List.mem_of_getElem? hi)).symm.trans (hlist.home ch x hmem)
          exact ⟨t, i, by rw [Function.update_self]; rfl, hi⟩
      | subscribe name id =>
          exact absurd hmem ((hinv.outside t x (by rw [hold]; rfl)).1 ch)
  · -- A proxy outside the lists is released by the subscribe that has it, which then returns.
    have hkeep : ∀ t' x, outsideProxy (s.pc t') = some x →
        (t' = t → outsideProxy pc = some x) →
        (∀ ch, x ∉ (sh.channel ch).subscriberProxies) ∧ (sh.proxy x).released = false := by
      intro t' x hx hstay
      obtain ⟨hnot, hlive⟩ := hinv.outside t' x hx
      refine ⟨fun ch hmem => hnot ch (hlists ch ▸ hmem), ?_⟩
      rw [← Bool.not_eq_true]
      intro hreleased
      rcases hrelease.released x hreleased with hold | hnew
      · rw [hlive] at hold
        cases hold
      · generalize hold : s.pc t = pc₀ at hnew
        cases hnew with
        | unsubscribe k thenFree ch' i =>
            have hi := hinv.position t ch' i x (by rw [hold]; rfl)
            exact hnot ch' (List.mem_of_getElem? hi)
        | subscribe name id =>
            have heq := hpointer.handUnique t' t x (subscribeProxy_of_outside hx)
              (by rw [hold]; rfl)
            cases hstay heq
    refine forall_update (P := fun _ pc => ∀ x, outsideProxy pc = some x →
      (∀ ch, x ∉ (sh.channel ch).subscriberProxies) ∧ (sh.proxy x).released = false) ?_ ?_
    · intro x hx
      rcases hrelease.outside x hx with hold | ⟨rfl, id, ch, rfl⟩
      · exact hkeep t x hold fun _ => hx
      · refine ⟨fun ch' hmem => ?_, ?_⟩
        · rw [hlists] at hmem
          exact absurd (hlist.bound ch' _ hmem) (lt_irrefl _)
        · rw [show (s.shared.newProxy id ch).proxy _ = _ from setProxy_proxy _ _ _ _, if_pos rfl]
    · exact fun t' hne x hx => hkeep t' x hx fun heq => absurd heq hne

/-- A write to a channel by the thread that holds it leaves the channels of the others alone. -/
theorem ChannelInv.setChannel_other (hchannel : ChannelInv s) {ch : Nat}
    (hheld : channelHeld (s.pc t) = some ch) {t' : Tid n} (ht : t' ≠ t) {ch' : Nat}
    (hheld' : channelHeld (s.pc t') = some ch') (c : Channel n) :
    (s.shared.setChannel ch c).channel ch' = s.shared.channel ch' := by
  have hne : ch' ≠ ch := by
    rintro rfl
    exact ht ((hchannel.lock ch').unique hheld' hheld)
  rw [setChannel_channel, if_neg hne]

/-- The insertion of a proxy at the end of a list keeps `ReleasedInv`. -/
theorem ReleasedInv.insertLast (hinv : ReleasedInv s) (hchannel : ChannelInv s)
    (hpointer : PointerInv tr s) {name : CString} {id : UInt64} {ch x : Nat}
    (hpc : s.pc t = .subscribe name id (.insertLast ch x)) :
    ReleasedInv ⟨s.pool, s.shared.setChannel ch { s.shared.channel ch with
        subscriberProxies := (s.shared.channel ch).subscriberProxies ++ [x] },
      Function.update s.pc t (.subscribe name id (.unlockChannel ch x)), s.faulted⟩ := by
  have hheld : channelHeld (s.pc t) = some ch := by rw [hpc]; rfl
  obtain ⟨hnot, hlive⟩ := hinv.outside t x (by rw [hpc]; rfl)
  refine ⟨?_, ?_, ?_⟩
  · refine forall_update (P := fun _ pc => ∀ ch' i y, MessageBroker.position pc = some (ch', i, y) →
      ((s.shared.setChannel ch _).channel ch').subscriberProxies[i]? = some y)
      (fun ch' i y hy => by cases hy) ?_
    intro t' ht ch' i y hy
    rw [hchannel.setChannel_other hheld ht (channelHeld_of_position hy)]
    exact hinv.position t' ch' i y hy
  · intro ch' y hy hreleased
    change (s.shared.proxy y).released = true at hreleased
    by_cases hch : ch' = ch
    · subst hch
      have hmem : y ∈ (s.shared.channel ch').subscriberProxies := by
        simp only [setChannel_channel, if_true] at hy
        rcases List.mem_append.mp hy with hy | hy
        · exact hy
        · rw [List.mem_singleton.mp hy, hlive] at hreleased
          cases hreleased
      obtain ⟨t', i, hun, -⟩ := hinv.listed ch' y hmem hreleased
      obtain rfl := (hchannel.lock ch').unique (channelHeld_of_unlinking hun) hheld
      rw [hpc] at hun
      cases hun
    · simp only [setChannel_channel, if_neg hch] at hy ⊢
      obtain ⟨t', i, hun, hi⟩ := hinv.listed ch' y hy hreleased
      have ht : t' ≠ t := by
        rintro rfl
        rw [hpc] at hun
        cases hun
      exact ⟨t', i, by rwa [Function.update_of_ne ht], hi⟩
  · refine forall_update (P := fun _ pc => ∀ y, outsideProxy pc = some y →
      (∀ ch', y ∉ ((s.shared.setChannel ch _).channel ch').subscriberProxies) ∧
        (s.shared.proxy y).released = false) (fun y hy => by cases hy) ?_
    intro t' ht y hy
    obtain ⟨hnot', hlive'⟩ := hinv.outside t' y hy
    refine ⟨fun ch' hmem => ?_, hlive'⟩
    by_cases hch : ch' = ch
    · subst hch
      rw [setChannel_channel, if_pos rfl] at hmem
      rcases List.mem_append.mp hmem with hmem | hmem
      · exact hnot' ch' hmem
      · obtain rfl := List.mem_singleton.mp hmem
        exact ht (hpointer.handUnique t' t y (subscribeProxy_of_outside hy) (by rw [hpc]; rfl))
    · rw [setChannel_channel, if_neg hch] at hmem
      exact hnot' ch' hmem

/-- The unlinking of a released proxy keeps `ReleasedInv`. -/
theorem ReleasedInv.unlink (hinv : ReleasedInv s) (hchannel : ChannelInv s) (hlist : ListInv s)
    {k : Nat} {thenFree : Bool} {ch i : Nat} (hpc : s.pc t = .unsubscribe k thenFree (.unlink ch i)) :
    ReleasedInv ⟨s.pool, s.shared.setChannel ch { s.shared.channel ch with
        subscriberProxies := (s.shared.channel ch).subscriberProxies.eraseIdx i },
      Function.update s.pc t (.unsubscribe k thenFree (.unlockChannel ch)), s.faulted⟩ := by
  have hheld : channelHeld (s.pc t) = some ch := by rw [hpc]; rfl
  refine ⟨?_, ?_, ?_⟩
  · refine forall_update (P := fun _ pc => ∀ ch' j y, MessageBroker.position pc = some (ch', j, y) →
      ((s.shared.setChannel ch _).channel ch').subscriberProxies[j]? = some y)
      (fun ch' j y hy => by cases hy) ?_
    intro t' ht ch' j y hy
    rw [hchannel.setChannel_other hheld ht (channelHeld_of_position hy)]
    exact hinv.position t' ch' j y hy
  · intro ch' y hy hreleased
    change (s.shared.proxy y).released = true at hreleased
    by_cases hch : ch' = ch
    · -- the released proxy of this channel was the one at the position `i`
      subst hch
      simp only [setChannel_channel, if_true] at hy
      obtain ⟨j, hji, hj⟩ := List.mem_eraseIdx_iff_getElem?.mp hy
      obtain ⟨t', i', hun, hi'⟩ := hinv.listed ch' y (List.mem_of_getElem? hj) hreleased
      obtain rfl := (hchannel.lock ch').unique (channelHeld_of_unlinking hun) hheld
      rw [hpc] at hun
      cases hun
      have hlt : j < (s.shared.channel ch').subscriberProxies.length :=
        (List.getElem?_eq_some_iff.mp hj).1
      exact absurd ((List.getElem?_inj hlt (hlist.nodup ch')).mp (hj.trans hi'.symm)) hji
    · simp only [setChannel_channel, if_neg hch] at hy ⊢
      obtain ⟨t', j, hun, hj⟩ := hinv.listed ch' y hy hreleased
      have ht : t' ≠ t := by
        rintro rfl
        rw [hpc] at hun
        cases hun
        exact hch rfl
      exact ⟨t', j, by rwa [Function.update_of_ne ht], hj⟩
  · refine forall_update (P := fun _ pc => ∀ y, outsideProxy pc = some y →
      (∀ ch', y ∉ ((s.shared.setChannel ch _).channel ch').subscriberProxies) ∧
        (s.shared.proxy y).released = false) (fun y hy => by cases hy) ?_
    intro t' _ y hy
    obtain ⟨hnot, hlive⟩ := hinv.outside t' y hy
    refine ⟨fun ch' hmem => ?_, hlive⟩
    rw [setChannel_channel] at hmem
    by_cases hch : ch' = ch
    · subst hch
      rw [if_pos rfl] at hmem
      exact hnot ch' (List.mem_of_mem_eraseIdx hmem)
    · rw [if_neg hch] at hmem
      exact hnot ch' hmem

end

/-- `ReleasedInv` holds in every state of a run. -/
theorem releasedInv_of_run {K : State n → Action n → Prop} {tr : List (Event n)} {s : State n}
    (h : (machine n capacity hcap).RunIf K tr s) : ReleasedInv s := by
  refine h.induction (I := fun _ s => ReleasedInv s) ?_ ?_
  · exact ⟨fun t ch i x hx => (by cases hx), fun ch x hx => (by cases hx),
      fun t x hx => (by cases hx)⟩
  · intro tr s a s' e hrun hinv _ hnext
    have hlist := (nameInv_of_run hrun).lists
    have hlisted := (nameInv_of_run hrun).listed
    have hchannel := channelInv_of_run hrun
    have hpointer := pointerInv_of_run hrun
    rcases next_cases hnext with ⟨b, pool, t, pc, e', -, -, rfl, hold, hnew, rfl⟩ |
        ⟨t, move, sh, pc, rfl, hf, rfl⟩ | ⟨t, rfl, rfl⟩
    · have hnone : ∀ {pc : Pc}, inCall pc = true →
          position pc = none ∧ unlinking pc = none ∧ outsideProxy pc = none := by
        intro pc hpc
        rcases inCall_cases hpc with rfl | ⟨arg, rfl⟩ | rfl | ⟨arg, rfl⟩ <;> exact ⟨rfl, rfl, rfl⟩
      have hrelease : ReleaseStep s.shared (s.pc t) s.shared pc :=
        releaseStep_of_same rfl (Or.inl (hnone hnew).1) (Or.inl (hnone hnew).2.2)
      have hafter := hinv.same hlist hpointer hrelease (fun _ => rfl) (hnone hold).2.1
      exact ⟨hafter.position, hafter.listed, hafter.outside⟩
    · have hfresh : (s.shared.channel s.shared.nextChannel).subscriberProxies = [] := by
        rw [List.eq_nil_iff_forall_not_mem]
        exact fun x hx => lt_irrefl _ (hlisted _ x hx)
      have hrelease := threadFunction_releaseStep hf
      have hafter : ReleasedInv ⟨s.pool, sh, Function.update s.pc t pc, s.faulted⟩ := by
        cases threadFunction_listChange hf hfresh with
        | same hlists hpc => exact hinv.same hlist hpointer hrelease hlists hpc
        | insertLast name id ch x hpc hpc' hsh =>
            subst hpc' hsh
            exact hinv.insertLast hchannel hpointer hpc
        | unlink k thenFree ch i hpc hpc' hsh =>
            subst hpc' hsh
            exact hinv.unlink hchannel hlist hpc
      exact hafter
    · exact ⟨hinv.position, hinv.listed, hinv.outside⟩

end

end Miez.Proofs.MessageBroker
