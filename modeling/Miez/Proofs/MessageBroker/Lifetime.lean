import Miez.MessageBroker.Lifetime
import Miez.Proofs.MessageBroker.Construction
import Miez.Proofs.MessageBroker.Ledger
import Miez.Proofs.MessageBroker.Publishes

/-!
# `Miez.Proofs.MessageBroker.Lifetime`: the end of a broker releases what its life has made

When `message_broker_free` is called, no call is in progress, so the ledgers of
`Miez.Proofs.MessageBroker.Ledger` have empty hands. After that only dispatchers move, and a task
leaves the proxies and the lists alone (`Settled`). When the last dispatcher has returned, every
live channel is in the table once and every live proxy is in one list once, and the script of
`message_broker_free` releases them all.
-/

set_option autoImplicit false

namespace Miez.Proofs.MessageBroker

open Miez.Lib
open Miez.Lib.Script (Safe)
open Miez.MessageBroker
open Miez.Construction (BrokerBlock ChannelContents)
open Miez.Proofs.Construction
open Miez.ThreadPool (Tid)

section
variable {n : Nat} {capacity : UInt64} {hcap : capacity ≠ 0}

/-! ### The dispatchers -/

/-- A dispatcher is outside the broker or in a task, and in a task it has not returned. -/
structure DispatcherPlace (s : State n) : Prop where
  pc : ∀ d, s.pc (.dispatcher d) = .idle ∨
    ∃ arg p, s.pc (.dispatcher d) = .publisherTask arg p
  running : ∀ d, s.pc (.dispatcher d) ≠ .idle → (s.pool.dispatcher d).isExited = false

/-- A dispatcher that calls the function of a task has not returned. -/
theorem isExited_of_called {d : Fin n} {sh sh' : ThreadPool.Shared n PublisherTaskArg}
    {pc pc' : ThreadPool.DispatcherPc PublisherTaskArg}
    {e : Option (ThreadPool.Event n PublisherTaskArg)}
    (h : ThreadPool.dispatcherFunction d sh pc = some (sh', pc', e)) (he : dispatcherPc e ≠ .idle) :
    pc'.isExited = false := by
  cases e with
  | none => exact absurd rfl he
  | some e =>
      cases e with
      | called d' task =>
          cases pc with
          | callFunction task' =>
              obtain ⟨-, rfl, -⟩ : sh = sh' ∧ .running task' = pc' ∧ _ := by
                simpa [ThreadPool.dispatcherFunction] using h
              rfl
          | dequeue =>
              simp only [ThreadPool.dispatcherFunction] at h
              split at h <;> cases h
          | lock | lockDone => simp [ThreadPool.dispatcherFunction] at h
          | parked =>
              simp only [ThreadPool.dispatcherFunction] at h
              split_ifs at h
              · cases h
              · simp at h
          | _ => simp [ThreadPool.dispatcherFunction] at h
      | _ => exact absurd rfl he

/-- A step of a client in the pool leaves the dispatchers where they are. -/
theorem poolClient_dispatcher {pool pool' : ThreadPool.State n PublisherTaskArg} {c : Nat}
    {move : ThreadPool.ClientMove n PublisherTaskArg}
    {e : Option (ThreadPool.Event n PublisherTaskArg)}
    (h : ThreadPool.next pool (.client c move) = some (pool', e)) :
    pool'.dispatcher = pool.dispatcher := by
  obtain ⟨r, -, heq⟩ := Option.map_eq_some_iff.mp h
  obtain ⟨rfl, -⟩ := Prod.mk.inj heq
  rfl

/-- A step of a client leaves the dispatchers alone. -/
theorem DispatcherPlace.client {s : State n} (hinv : DispatcherPlace s) (c : Nat) (pc : Pc)
    {pool : ThreadPool.State n PublisherTaskArg} (hpool : pool.dispatcher = s.pool.dispatcher)
    (sh : Shared n) (faulted : Tid n → Bool) :
    DispatcherPlace ⟨pool, sh, Function.update s.pc (.client c) pc, faulted⟩ := by
  have hpc : ∀ d, Function.update s.pc (.client c) pc (.dispatcher d) = s.pc (.dispatcher d) :=
    fun d => Function.update_of_ne (by simp) _ _
  refine ⟨fun d => ?_, fun d hd => ?_⟩
  · show Function.update s.pc (.client c) pc (.dispatcher d) = .idle ∨ _
    simp only [hpc]
    exact hinv.pc d
  · show (pool.dispatcher d).isExited = false
    rw [hpool]
    refine hinv.running d fun hidle => hd ?_
    exact (hpc d).trans hidle

/-- A step of a dispatcher leaves the others alone. -/
theorem DispatcherPlace.update {s : State n} (hinv : DispatcherPlace s) (d : Fin n) {pc : Pc}
    {pool : ThreadPool.State n PublisherTaskArg} (sh : Shared n) (faulted : Tid n → Bool)
    (hpc : pc = .idle ∨ ∃ arg p, pc = .publisherTask arg p)
    (hrunning : pc ≠ .idle → (pool.dispatcher d).isExited = false)
    (hothers : ∀ d', d' ≠ d → pool.dispatcher d' = s.pool.dispatcher d') :
    DispatcherPlace ⟨pool, sh, Function.update s.pc (.dispatcher d) pc, faulted⟩ := by
  have hself : Function.update s.pc (.dispatcher d) pc (.dispatcher d) = pc :=
    Function.update_self _ _ _
  have hother : ∀ d', d' ≠ d →
      Function.update s.pc (.dispatcher d) pc (.dispatcher d') = s.pc (.dispatcher d') :=
    fun d' hd => Function.update_of_ne (by simpa using hd) _ _
  constructor
  · intro d'
    show Function.update s.pc (.dispatcher d) pc (.dispatcher d') = .idle ∨ _
    by_cases hd : d' = d
    · subst hd
      simp only [hself]
      exact hpc
    · simp only [hother d' hd]
      exact hinv.pc d'
  · intro d' hbusy
    by_cases hd : d' = d
    · subst hd
      exact hrunning fun heq => hbusy (hself.trans heq)
    · show (pool.dispatcher d').isExited = false
      rw [hothers d' hd]
      exact hinv.running d' fun hidle => hbusy ((hother d' hd).trans hidle)

/-- After its step a dispatcher is outside the broker or at the start of a task. -/
theorem dispatcherPc_cases (e : Option (ThreadPool.Event n PublisherTaskArg)) :
    dispatcherPc e = .idle ∨ ∃ arg p, dispatcherPc e = .publisherTask arg p := by
  cases e with
  | none => exact Or.inl rfl
  | some e =>
      cases e with
      | called d task => exact Or.inr ⟨_, _, rfl⟩
      | _ => exact Or.inl rfl

section
variable {t : Tid n} {sh sh' : Shared n} {pc' : Pc} {e : Option (Event n)}

/-- A write to the fields of a proxy that its owner does not look at. -/
theorem setProxy_frame {x : Nat} {p : SubscriberProxy n}
    (hreleased : p.released = (sh.proxy x).released) (hchannel : p.channel = (sh.proxy x).channel)
    (y : Nat) : ((sh.setProxy x p).proxy y).released = (sh.proxy y).released ∧
      ((sh.setProxy x p).proxy y).channel = (sh.proxy y).channel := by
  rw [setProxy_proxy]
  split_ifs with hy
  · rw [hy]
    exact ⟨hreleased, hchannel⟩
  · exact ⟨rfl, rfl⟩

/-- A task makes no proxy and releases none, and it stays a task up to its end. -/
theorem publisherTask_frame {arg : PublisherTaskArg} {p : PublisherTaskPc} {move : Move n}
    (h : threadFunction t sh (.publisherTask arg p) move = some (.step sh' pc' e)) :
    sh'.nextProxy = sh.nextProxy ∧
      (∀ x, (sh'.proxy x).released = (sh.proxy x).released ∧
        (sh'.proxy x).channel = (sh.proxy x).channel) ∧
      (pc' = .idle ∨ ∃ arg p, pc' = .publisherTask arg p) := by
  have hrefl : ∀ x, (sh.proxy x).released = (sh.proxy x).released ∧
      (sh.proxy x).channel = (sh.proxy x).channel := fun _ => ⟨rfl, rfl⟩
  rcases threadFunction_cases h with hstep | ⟨hstep, -⟩
  · cases hstep with
    | taskMore hg | taskFound hg =>
        refine ⟨by cases hg <;> rfl, fun x => ?_, Or.inr ⟨_, _, rfl⟩⟩
        rw [hg.proxy.1]
        exact ⟨rfl, rfl⟩
    | put ch i x | taskLockInbox ch i x hfree | taskSignal ch i x waiting
    | taskUnlockInbox ch i x =>
        exact ⟨rfl, setProxy_frame (by rfl) (by rfl), Or.inr ⟨_, _, rfl⟩⟩
    | taskUnlock ch => exact ⟨rfl, hrefl, Or.inl rfl⟩
    | _ => exact ⟨rfl, hrefl, Or.inr ⟨_, _, rfl⟩⟩
  · cases hstep with
    | taskMore hg =>
        refine ⟨by cases hg <;> rfl, fun x => ?_, Or.inr ⟨_, _, rfl⟩⟩
        rw [hg.proxy.1]
        exact ⟨rfl, rfl⟩
    | taskFailed hg =>
        refine ⟨by cases hg <;> rfl, fun x => ?_, Or.inl rfl⟩
        rw [hg.proxy.1]
        exact ⟨rfl, rfl⟩
    | _ => exact ⟨rfl, hrefl, Or.inr ⟨_, _, rfl⟩⟩

end

/-- A step of the broker keeps `DispatcherPlace`. -/
theorem DispatcherPlace.next {s s' : State n} (hinv : DispatcherPlace s) {a : Action n}
    {e : Option (Event n)} (h : MessageBroker.next s a = some (s', e)) : DispatcherPlace s' := by
  cases a with
  | dispatcher d =>
      simp only [MessageBroker.next, Option.ite_none_right_eq_some, Option.map_eq_some_iff,
        Prod.mk.injEq, ThreadPool.next, Prod.exists] at h
      obtain ⟨hidle, pool, e', ⟨sh, pc, e₁, hf, rfl, rfl⟩, rfl, rfl⟩ := h
      refine hinv.update d s.shared s.faulted (dispatcherPc_cases e₁) (fun hbusy => ?_)
        fun d' hd => Function.update_of_ne hd _ _
      show (Function.update s.pool.dispatcher d pc d).isExited = false
      rw [Function.update_self]
      exact isExited_of_called hf hbusy
  | submit c =>
      simp only [MessageBroker.next] at h
      split at h
      · obtain ⟨⟨pool, e'⟩, hpool, heq⟩ := Option.map_eq_some_iff.mp h
        obtain ⟨rfl, -⟩ := Prod.mk.inj heq
        exact hinv.client c .inPool (poolClient_dispatcher hpool) s.shared s.faulted
      · cases h
  | wait c =>
      simp only [MessageBroker.next, Option.ite_none_right_eq_some] at h
      obtain ⟨⟨pool, e'⟩, hpool, heq⟩ := Option.map_eq_some_iff.mp h.2
      obtain ⟨rfl, -⟩ := Prod.mk.inj heq
      exact hinv.client c .inPool (poolClient_dispatcher hpool) s.shared s.faulted
  | pool c move =>
      simp only [MessageBroker.next, Option.ite_none_right_eq_some] at h
      obtain ⟨⟨pool, e'⟩, hpool, heq⟩ := Option.map_eq_some_iff.mp h.2
      obtain ⟨rfl, -⟩ := Prod.mk.inj heq
      exact hinv.client c _ (poolClient_dispatcher hpool) s.shared s.faulted
  | thread t move =>
      simp only [MessageBroker.next, Option.ite_none_left_eq_some] at h
      obtain ⟨-, h⟩ := h
      obtain ⟨outcome, hf, heq⟩ := Option.map_eq_some_iff.mp h
      cases outcome with
      | fault =>
          obtain ⟨rfl, -⟩ := Prod.mk.inj heq
          exact ⟨hinv.pc, hinv.running⟩
      | step sh pc e₁ =>
          obtain ⟨rfl, -⟩ := Prod.mk.inj heq
          cases t with
          | client c => exact hinv.client c pc rfl sh s.faulted
          | dispatcher d =>
              obtain ⟨arg, p, hp⟩ : ∃ arg p, s.pc (.dispatcher d) = .publisherTask arg p := by
                rcases hinv.pc d with hidle | htask
                · rw [hidle] at hf
                  cases hf
                · exact htask
              have hrunning := hinv.running d (by rw [hp]; simp)
              rw [hp] at hf
              have hpc := (publisherTask_frame hf).2.2
              exact hinv.update d sh s.faulted hpc (fun _ => hrunning) fun _ _ => rfl

/-! ### After the call of `message_broker_free` -/

/-- No client is in a call, and the proxies that have not been freed are those in the lists, each in
one list and once. -/
structure Settled (s : State n) : Prop where
  client : ∀ c, s.pc (.client c) = .idle ∨ s.pc (.client c) = .inPool
  live : ∀ ch x, x ∈ (s.shared.channel ch).subscriberProxies →
    x < s.shared.nextProxy ∧ (s.shared.proxy x).released = false
  covered : ∀ x, x < s.shared.nextProxy → (s.shared.proxy x).released = false →
    ∃ ch, x ∈ (s.shared.channel ch).subscriberProxies
  home : ∀ ch x, x ∈ (s.shared.channel ch).subscriberProxies → (s.shared.proxy x).channel = ch
  nodup : ∀ ch, (s.shared.channel ch).subscriberProxies.Nodup

/-- The dispatchers have no proxy in hand and unlink none. -/
theorem DispatcherPlace.noProxy {s : State n} (hinv : DispatcherPlace s) (d : Fin n) :
    outsideProxy (s.pc (.dispatcher d)) = none ∧ unlinking (s.pc (.dispatcher d)) = none := by
  rcases hinv.pc d with hidle | ⟨arg, p, hp⟩
  · rw [hidle]
    exact ⟨rfl, rfl⟩
  · rw [hp]
    exact ⟨rfl, rfl⟩

/-- When no call is in progress, the broker is settled. -/
theorem settled_of_idle {K : State n → Action n → Prop} {tr : List (Event n)} {s : State n}
    (h : (machine n capacity hcap).RunIf K tr s) (hdispatchers : DispatcherPlace s)
    (hidle : ∀ c, s.pc (.client c) = .idle) : Settled s := by
  have hlists := (nameInv_of_run h).lists
  have hnone : ∀ t, outsideProxy (s.pc t) = none ∧ unlinking (s.pc t) = none := by
    intro t
    cases t with
    | dispatcher d => exact hdispatchers.noProxy d
    | client c =>
        rw [hidle c]
        exact ⟨rfl, rfl⟩
  refine ⟨fun c => Or.inl (hidle c), fun ch x hx => ⟨hlists.bound ch x hx, ?_⟩, ?_, hlists.home,
    hlists.nodup⟩
  · cases hreleased : (s.shared.proxy x).released with
    | false => rfl
    | true =>
        -- a freed proxy in a list is one that an unsubscribe is about to unlink
        obtain ⟨t, i, ht, -⟩ := (releasedInv_of_run h).listed ch x hx hreleased
        rw [(hnone t).2] at ht
        cases ht
  · intro x hlt hlive
    rcases (proxyLedger_of_run h).covered x hlt hlive with hin | ⟨t, ht⟩
    · exact hin
    · rw [(hnone t).1] at ht
      cases ht

/-- A step that leaves the proxies and the lists alone. -/
theorem Settled.frame {s s' : State n} (hinv : Settled s)
    (hclient : ∀ c, s'.pc (.client c) = .idle ∨ s'.pc (.client c) = .inPool)
    (hnext : s'.shared.nextProxy = s.shared.nextProxy)
    (hproxy : ∀ x, (s'.shared.proxy x).released = (s.shared.proxy x).released ∧
      (s'.shared.proxy x).channel = (s.shared.proxy x).channel)
    (hlists : ∀ ch, (s'.shared.channel ch).subscriberProxies =
      (s.shared.channel ch).subscriberProxies) : Settled s' := by
  constructor
  · exact hclient
  · intro ch x hx
    rw [hlists] at hx
    rw [hnext, (hproxy x).1]
    exact hinv.live ch x hx
  · intro x hlt hlive
    rw [hnext] at hlt
    rw [(hproxy x).1] at hlive
    obtain ⟨ch, hx⟩ := hinv.covered x hlt hlive
    exact ⟨ch, by rwa [hlists]⟩
  · intro ch x hx
    rw [hlists] at hx
    rw [(hproxy x).2]
    exact hinv.home ch x hx
  · intro ch
    rw [hlists]
    exact hinv.nodup ch

/-- A task leaves the lists alone. -/
theorem publisherTask_lists {t : Tid n} {sh sh' : Shared n} {pc' : Pc} {e : Option (Event n)}
    {arg : PublisherTaskArg} {p : PublisherTaskPc} {move : Move n}
    (h : threadFunction t sh (.publisherTask arg p) move = some (.step sh' pc' e))
    (hfresh : (sh.channel sh.nextChannel).subscriberProxies = []) (ch : Nat) :
    (sh'.channel ch).subscriberProxies = (sh.channel ch).subscriberProxies := by
  cases threadFunction_listChange h hfresh with
  | same hlists hpc => exact hlists ch
  | insertLast name id ch x hpc => cases hpc
  | unlink k thenFree ch i hpc => cases hpc

/-- A step of the pool or of a task keeps the broker settled. -/
theorem Settled.next {s s' : State n} (hinv : Settled s) (hledger : ChannelLedger s)
    (hdispatchers : DispatcherPlace s) {a : Action n} {e : Option (Event n)}
    (hpool : belongsToPool a = true) (h : MessageBroker.next s a = some (s', e)) : Settled s' := by
  have hkept : ∀ (d : Fin n) (pc : Pc) c,
      Function.update s.pc (.dispatcher d) pc (.client c) = .idle ∨
        Function.update s.pc (.dispatcher d) pc (.client c) = .inPool := by
    intro d pc c
    rw [Function.update_of_ne (by simp)]
    exact hinv.client c
  cases a with
  | dispatcher d =>
      simp only [MessageBroker.next, Option.ite_none_right_eq_some] at h
      obtain ⟨r, -, heq⟩ := Option.map_eq_some_iff.mp h.2
      obtain ⟨rfl, -⟩ := Prod.mk.inj heq
      exact hinv.frame (hkept d (dispatcherPc r.2)) rfl (fun _ => ⟨rfl, rfl⟩) fun _ => rfl
  | submit c => cases hpool
  | wait c => cases hpool
  | pool c move =>
      simp only [MessageBroker.next, Option.ite_none_right_eq_some] at h
      obtain ⟨r, -, heq⟩ := Option.map_eq_some_iff.mp h.2
      obtain ⟨rfl, -⟩ := Prod.mk.inj heq
      refine hinv.frame (fun c' => ?_) rfl (fun _ => ⟨rfl, rfl⟩) fun _ => rfl
      simp only [Function.update_apply]
      split_ifs
      · exact Or.inl rfl
      · exact Or.inr rfl
      · exact hinv.client c'
  | thread t move =>
      cases t with
      | client c => cases hpool
      | dispatcher d =>
          simp only [MessageBroker.next, Option.ite_none_left_eq_some] at h
          obtain ⟨outcome, hf, heq⟩ := Option.map_eq_some_iff.mp h.2
          cases outcome with
          | fault =>
              obtain ⟨rfl, -⟩ := Prod.mk.inj heq
              exact hinv.frame hinv.client rfl (fun _ => ⟨rfl, rfl⟩) fun _ => rfl
          | step sh pc e₁ =>
              obtain ⟨rfl, -⟩ := Prod.mk.inj heq
              rcases hdispatchers.pc d with hidle | ⟨arg, p, hp⟩
              · rw [hidle] at hf
                cases hf
              rw [hp] at hf
              obtain ⟨hnext, hproxy, -⟩ := publisherTask_frame hf
              have hfresh : (s.shared.channel s.shared.nextChannel).subscriberProxies = [] := by
                rw [List.eq_nil_iff_forall_not_mem]
                exact fun x hx => lt_irrefl _ (hledger.table _ (hledger.listed _ x hx)).1
              exact hinv.frame (hkept d pc) hnext hproxy (publisherTask_lists hf hfresh)

/-! ### The life of a broker -/

/-- A broker that has not been freed is in a state of a run of the broker. When it is freed, it is
settled. -/
structure LifeInv (capacity : UInt64) (hcap : capacity ≠ 0) (tr : List (Event n)) (s : Life n) :
    Prop where
  serving : s.freeing = false → (machine n capacity hcap).Run tr s.broker
  settled : s.freeing = true → Settled s.broker
  ledger : ChannelLedger s.broker
  dispatchers : DispatcherPlace s.broker

/-- A new broker has no channels. -/
theorem channelLedger_init : ChannelLedger (machine n capacity hcap).init := by
  have hnone : tableChannels (machine n capacity hcap).init.shared.channels = 0 :=
    Finset.sum_eq_zero fun i _ => rfl
  refine ⟨fun ch hch => ?_, ?_, fun t ch h => (by cases h), fun t t' ch h => (by cases h),
    fun ch hlt => absurd hlt (Nat.not_lt_zero ch), fun t name ch h => (by cases h),
    fun ch x hx => (by cases hx)⟩
  · rw [hnone] at hch
    exact absurd hch (Multiset.notMem_zero ch)
  · rw [hnone]
    exact Multiset.nodup_zero

/-- `LifeInv` holds in every state of a run in which the callers keep their promise. -/
theorem lifeInv_of_run {tr : List (Event n)} {s : Life n}
    (h : (lifetime n capacity hcap).RunIf Orderly tr s) : LifeInv capacity hcap tr s := by
  refine h.induction (I := LifeInv capacity hcap) ?_ ?_
  · exact ⟨fun _ => .nil, fun hfreeing => (by cases hfreeing), channelLedger_init,
      fun d => Or.inl rfl, fun d hd => absurd rfl hd⟩
  · intro tr s a s' e hrun hinv hK hnext
    cases a with
    | broker a =>
        simp only [lifetime, Life.next, Option.ite_none_right_eq_some] at hnext
        obtain ⟨hallowed, hnext⟩ := hnext
        obtain ⟨⟨b, e'⟩, hb, heq⟩ := Option.map_eq_some_iff.mp hnext
        obtain ⟨rfl, rfl⟩ := Prod.mk.inj heq
        have hnode : ∀ t, a ≠ .thread t .failNode := by
          rintro t rfl
          exact hK rfl
        refine ⟨fun hserving => ?_, fun hfreeing => ?_, hinv.ledger.next hb hnode,
          hinv.dispatchers.next hb⟩
        · exact .snoc (hinv.serving hserving) trivial hb
        · have hpool : belongsToPool a = true := by
            rcases hallowed with hserving | hpool
            · rw [hserving] at hfreeing
              cases hfreeing
            · exact hpool
          exact (hinv.settled hfreeing).next hinv.ledger hinv.dispatchers hpool hb
    | free c =>
        simp only [lifetime, Life.next, Option.ite_none_right_eq_some] at hnext
        obtain ⟨⟨hserving, hidle⟩, hnext⟩ := hnext
        obtain ⟨⟨pool, e'⟩, hpool, heq⟩ := Option.map_eq_some_iff.mp hnext
        obtain ⟨rfl, rfl⟩ := Prod.mk.inj heq
        have hsettled := settled_of_idle (hinv.serving hserving) hinv.dispatchers hK
        refine ⟨fun hfreeing => (by cases hfreeing), fun _ => ?_, ?_, ?_⟩
        · refine hsettled.frame (fun c' => ?_) rfl (fun _ => ⟨rfl, rfl⟩) fun _ => rfl
          simp only [Function.update_apply]
          split_ifs
          · exact Or.inr rfl
          · exact hsettled.client c'
        · exact hinv.ledger.pool (by rw [hidle]; rfl) rfl pool s.broker.faulted
        · exact hinv.dispatchers.client c .inPool (poolClient_dispatcher hpool) s.broker.shared
            s.broker.faulted

/-- A thread inside a broker function shows nothing of the pool. -/
theorem threadFunction_poolEvent {t : Tid n} {sh sh' : Shared n} {pc pc' : Pc} {move : Move n}
    {e : Option (Event n)} (h : threadFunction t sh pc move = some (.step sh' pc' e)) :
    e.bind poolEvent = none := by
  rcases threadFunction_cases h with hstep | ⟨hstep, -⟩
  · cases hstep with
    | unsubscribeInactive hret | clearProxy hret => rcases hret with ⟨-, rfl⟩ | ⟨-, rfl⟩ <;> rfl
    | receiveRead hret | receiveInbox _ _ _ _ hret =>
        rcases hret with ⟨_, -, rfl⟩ | ⟨-, rfl⟩ <;> rfl
    | pendingRead hret => rcases hret with ⟨-, rfl⟩ | ⟨-, _, rfl⟩ <;> rfl
    | _ => rfl
  · cases hstep <;> rfl

/-- The pool inside a run of the broker up to its end has a run of its own. -/
theorem poolRun_of_life {K : Life n → LifeAction n → Prop} {tr : List (Event n)} {s : Life n}
    (h : (lifetime n capacity hcap).RunIf K tr s) :
    (ThreadPool.machine n PublisherTaskArg).Run (poolTrace tr) s.broker.pool := by
  have hinit : (lifetime n capacity hcap).init.broker.pool =
      (ThreadPool.machine n PublisherTaskArg).init := rfl
  refine h.map (fun s => s.broker.pool) poolEvent hinit ?_
  intro tr s a s' e hrun hK hnext
  cases a with
  | broker a =>
      simp only [lifetime, Life.next, Option.ite_none_right_eq_some] at hnext
      obtain ⟨⟨b, e'⟩, hb, heq⟩ := Option.map_eq_some_iff.mp hnext.2
      obtain ⟨rfl, rfl⟩ := Prod.mk.inj heq
      rcases next_cases hb with ⟨b, pool, t, pc, e', -, hstep, rfl, -, -, rfl⟩ |
          ⟨t, move, sh, pc, rfl, hf, rfl⟩ | ⟨t, rfl, rfl⟩
      · refine Or.inl ⟨b, trivial, ?_⟩
        rw [poolEvent_map]
        exact hstep.next
      · exact Or.inr ⟨rfl, threadFunction_poolEvent hf⟩
      · exact Or.inr ⟨rfl, rfl⟩
  | free c =>
      simp only [lifetime, Life.next, Option.ite_none_right_eq_some] at hnext
      obtain ⟨⟨pool, e'⟩, hpool, heq⟩ := Option.map_eq_some_iff.mp hnext.2
      obtain ⟨rfl, rfl⟩ := Prod.mk.inj heq
      refine Or.inl ⟨.client c .callShutdown, trivial, ?_⟩
      rw [poolEvent_map]
      exact hpool

/-- When `thread_pool_shutdown` has returned, every dispatcher has. -/
theorem isExited_of_shutdownRet {K : Life n → LifeAction n → Prop} {tr : List (Event n)}
    {s : Life n} (h : (lifetime n capacity hcap).RunIf K tr s) {c : Nat}
    (hreturned : .pool (.shutdownRet c) ∈ tr) (d : Fin n) :
    (s.broker.pool.dispatcher d).isExited = true := by
  refine (Proofs.ThreadPool.joinInv_of_run (poolRun_of_life h)).ret c ?_ d
  exact List.mem_filterMap.mpr ⟨_, hreturned, rfl⟩

/-- When the last dispatcher of a settled broker has returned, the live channels are those in the
table. -/
theorem mem_tableChannels_iff {s : State n} (hledger : ChannelLedger s)
    (hdispatchers : DispatcherPlace s) (hsettled : Settled s)
    (hexited : ∀ d, (s.pool.dispatcher d).isExited = true) (ch : Nat) :
    ch ∈ tableChannels s.shared.channels ↔
      ch < s.shared.nextChannel ∧ (s.shared.channel ch).released = false := by
  have hnone : ∀ t, inHand (s.pc t) = none := by
    intro t
    cases t with
    | dispatcher d =>
        have hidle : s.pc (.dispatcher d) = .idle := by
          by_contra hbusy
          have hrunning := hdispatchers.running d hbusy
          rw [hexited d] at hrunning
          cases hrunning
        rw [hidle]
        rfl
    | client c =>
        rcases hsettled.client c with hc | hc <;> rw [hc] <;> rfl
  refine ⟨hledger.table ch, fun ⟨hlt, hlive⟩ => ?_⟩
  rcases hledger.covered ch hlt hlive with hin | ⟨t, ht⟩
  · exact hin
  · rw [hnone t] at ht
    cases ht

/-! ### What `message_broker_free` releases -/

/-- The channels that have not been freed. -/
def liveChannels (sh : Shared n) : List Nat :=
  (List.range sh.nextChannel).filter fun ch => !(sh.channel ch).released

/-- The proxies that have not been freed. -/
def liveProxies (sh : Shared n) : List Nat :=
  (List.range sh.nextProxy).filter fun x => !(sh.proxy x).released

/-- The blocks of a channel without its proxies, with the key that the table has for it. -/
def channelObject (sh : Shared n) (ch : Nat) : Multiset BrokerBlock :=
  {BrokerBlock.key ch} +
    (channelBlocks (sh.channel ch).subscriberProxies.length).map (.channel ch)

/-- The blocks of a proxy with the messages in its inbox. -/
def proxyObject (sh : Shared n) (x : Nat) : Multiset BrokerBlock :=
  (proxyBlocks (sh.proxy x).inbox.length).map (.proxy x)

/-- The blocks of a broker: its own ones, those of its pool and of its table, and those of all
channels and proxies that have not been freed. -/
def heldBlocks (s : State n) : Multiset BrokerBlock :=
  {BrokerBlock.self} + (poolBlocks n s.pool.shared.queue.length).map .publisherPool +
    (tableBlocks s.shared.channels.capacity.toNat fun i =>
      (s.shared.pairs i).length).map .channels +
    numbered (fun i => numbered (fun j => {BrokerBlock.channels (.pair i j)}) 0
      (s.shared.pairs i).length) 0 s.shared.channels.capacity.toNat +
    {BrokerBlock.channelsMutex} + ((liveChannels s.shared).map (channelObject s.shared)).sum +
    ((liveProxies s.shared).map (proxyObject s.shared)).sum

/-- A number is a live object when it is below the next one and not released. -/
theorem mem_liveChannels {sh : Shared n} {ch : Nat} :
    ch ∈ liveChannels sh ↔ ch < sh.nextChannel ∧ (sh.channel ch).released = false := by
  simp [liveChannels]

/-- The same for proxies. -/
theorem mem_liveProxies {sh : Shared n} {x : Nat} :
    x ∈ liveProxies sh ↔ x < sh.nextProxy ∧ (sh.proxy x).released = false := by
  simp [liveProxies]

/-- What the pairs of the table own, channel by channel. -/
theorem sum_pairs (sh : Shared n) (owns : ChannelContents → Multiset BrokerBlock) :
    numbered (fun i => ((sh.pairs i).map owns).sum) 0 sh.channels.capacity.toNat =
      ((tableChannels sh.channels).map fun ch => owns (sh.contents ch)).sum := by
  let total : Multiset Nat →+ Multiset BrokerBlock :=
    Multiset.sumAddMonoidHom.comp (Multiset.mapAddMonoidHom fun ch => owns (sh.contents ch))
  have hsum := map_sum total (fun i =>
    (((sh.channels.buckets (UInt64.ofNat i)).map Prod.snd : List Nat) : Multiset Nat))
      (Finset.range sh.channels.capacity.toNat)
  refine Eq.trans ?_ hsum.symm
  rw [numbered_eq_sum]
  refine Finset.sum_congr rfl fun i _ => ?_
  simp [total, Shared.pairs, Function.comp_def]

/-- What the contents of a channel own. -/
theorem contentsBlocks_contents (sh : Shared n) (ch : Nat) :
    contentsBlocks (sh.contents ch) =
      channelObject sh ch + ((sh.channel ch).subscriberProxies.map (proxyObject sh)).sum := by
  simp only [contentsBlocks, proxiesBlocks, channelObject, Shared.contents, List.length_map,
    List.map_map, add_assoc]
  rfl

section
variable {s : State n}

/-- The table leads to the live channels. -/
theorem tableChannels_eq (hledger : ChannelLedger s) (hdispatchers : DispatcherPlace s)
    (hsettled : Settled s) (hexited : ∀ d, (s.pool.dispatcher d).isExited = true) :
    tableChannels s.shared.channels = (liveChannels s.shared : Multiset Nat) := by
  have hnodup : (liveChannels s.shared : Multiset Nat).Nodup :=
    Multiset.coe_nodup.mpr (List.nodup_range.filter _)
  refine (Multiset.Nodup.ext hledger.nodup hnodup).mpr fun ch => ?_
  rw [mem_tableChannels_iff hledger hdispatchers hsettled hexited, Multiset.mem_coe,
    mem_liveChannels]

/-- The lists of the live channels lead to the live proxies, each once. -/
theorem liveProxies_perm (hledger : ChannelLedger s) (hsettled : Settled s) :
    ((liveChannels s.shared).flatMap fun ch => (s.shared.channel ch).subscriberProxies).Perm
      (liveProxies s.shared) := by
  have hlists : ((liveChannels s.shared).flatMap fun ch =>
      (s.shared.channel ch).subscriberProxies).Nodup := by
    refine List.nodup_flatMap.mpr ⟨fun ch _ => hsettled.nodup ch, ?_⟩
    refine (List.nodup_range.filter _).imp fun {ch ch'} hne => ?_
    intro x hx hx'
    exact hne ((hsettled.home ch x hx).symm.trans (hsettled.home ch' x hx'))
  have hlive : (liveProxies s.shared).Nodup := List.nodup_range.filter _
  refine (List.perm_ext_iff_of_nodup hlists hlive).mpr fun x => ?_
  rw [List.mem_flatMap, mem_liveProxies]
  constructor
  · rintro ⟨ch, -, hx⟩
    exact hsettled.live ch x hx
  · rintro ⟨hlt, hlive⟩
    obtain ⟨ch, hx⟩ := hsettled.covered x hlt hlive
    refine ⟨ch, mem_liveChannels.mpr ?_, hx⟩
    exact hledger.table ch (hledger.listed ch x hx)

/-- What the broker contains, as `message_broker_free` finds it. -/
theorem brokerBlocks_eq (hledger : ChannelLedger s) (hdispatchers : DispatcherPlace s)
    (hsettled : Settled s) (hexited : ∀ d, (s.pool.dispatcher d).isExited = true) :
    brokerBlocks n s.pool.shared.queue.length
      s.shared.channels.capacity.toNat s.shared.pairs = heldBlocks s := by
  have hproxies : ((liveChannels s.shared).map fun ch =>
      ((s.shared.channel ch).subscriberProxies.map (proxyObject s.shared)).sum).sum =
        ((liveProxies s.shared).map (proxyObject s.shared)).sum := by
    have hperm := ((liveProxies_perm hledger hsettled).map
      (proxyObject s.shared)).sum_eq
    rw [List.map_flatMap, List.flatMap_def, List.sum_flatten, List.map_map] at hperm
    exact hperm
  have hpairs : numbered (fun i => ((s.shared.pairs i).map contentsBlocks).sum) 0
      s.shared.channels.capacity.toNat =
        ((liveChannels s.shared).map (channelObject s.shared)).sum +
          ((liveProxies s.shared).map (proxyObject s.shared)).sum := by
    rw [sum_pairs, tableChannels_eq hledger hdispatchers hsettled hexited, Multiset.map_coe,
      Multiset.sum_coe, ← hproxies, ← List.sum_map_add]
    simp only [contentsBlocks_contents]
  have hsplit : numbered (pairBlocks contentsBlocks BrokerBlock.channels s.shared.pairs) 0
      s.shared.channels.capacity.toNat =
        numbered (fun i => ((s.shared.pairs i).map contentsBlocks).sum) 0
            s.shared.channels.capacity.toNat +
          numbered (fun i => numbered (fun j => {BrokerBlock.channels (.pair i j)}) 0
            (s.shared.pairs i).length) 0 s.shared.channels.capacity.toNat :=
    numbered_add _ _ _ _
  unfold brokerBlocks heldBlocks
  rw [hsplit, hpairs]
  abel

end

/-- Let the callers keep their promise, and let `thread_pool_shutdown` have returned after the call
of `message_broker_free`. Then the function releases the broker with its pool, its table, and every
channel and proxy that has not been freed before, and it never accesses what has been released.
Only the contents of a bucket whose iterator could not be allocated are left, and what others hold:
`k`, which has the arguments of the tasks that no dispatcher has taken. -/
theorem messageBrokerFree_of_run {tr : List (Event n)} {s : Life n}
    (h : (lifetime n capacity hcap).RunIf Orderly tr s) (hfreeing : s.freeing = true) {c : Nat}
    (hreturned : .pool (.shutdownRet c) ∈ tr) (k : Multiset BrokerBlock) :
    Safe s.broker.messageBrokerFree (heldBlocks s.broker + k) fun code held => code = 0 ∧
      ∃ failed : Nat → Bool, held = leftPairs contentsBlocks .channels s.broker.shared.pairs
        failed 0 s.broker.shared.channels.capacity.toNat + k := by
  have hexited := isExited_of_shutdownRet h hreturned
  have hinv := lifeInv_of_run h
  have hblocks := brokerBlocks_eq hinv.ledger hinv.dispatchers (hinv.settled hfreeing) hexited
  have hfree := (messageBrokerFree_safe n s.broker.pool.shared.queue.length
    s.broker.shared.channels.capacity.toNat s.broker.shared.pairs).frame k
  rw [hblocks] at hfree
  refine hfree.mono ?_
  rintro code held ⟨own, hheld, hcode, failed, rfl⟩
  exact ⟨hcode, failed, hheld⟩

/-- A new broker with one dispatcher and one bucket is freed. -/
theorem messageBrokerFree_of_run_newBroker : ∃ (tr : List (Event 1)) (s : Life 1),
    (lifetime 1 1 (by decide)).RunIf Orderly tr s ∧
      Safe s.broker.messageBrokerFree (heldBlocks s.broker + 0) fun code held => code = 0 ∧
        ∃ failed : Nat → Bool, held = leftPairs contentsBlocks .channels s.broker.shared.pairs
          failed 0 s.broker.shared.channels.capacity.toNat + 0 := by
  let M : Machine (Life 1) (LifeAction 1) (Event 1) := lifetime 1 1 (by decide)
  let d : LifeAction 1 := .broker (.dispatcher 0)
  let go : LifeAction 1 := .broker (.pool 0 .go)
  let called := (M.next M.init (.free 0)).get (by decide)
  have hcall : M.next M.init (.free 0) = some (called.1, called.2) := rfl
  have hidle : Orderly M.init (.free 0) := fun _ => rfl
  have hfirst : M.RunIf Orderly ([] ++ called.2.toList) called.1 :=
    Machine.RunIf.nil.snoc hidle hcall
  obtain ⟨tr, s, hrun, htest⟩ := Machine.runIf_of_exec (M := M.startAt called.1)
    (K := fun _ a => a = d ∨ a = go) (List.replicate 5 go ++ List.replicate 5 d ++ [go, go])
    (fun tr s => s.freeing && decide (.pool (.shutdownRet 0) ∈ tr)) (by decide)
  rw [Bool.and_eq_true] at htest
  have horderly : (M.startAt called.1).RunIf Orderly tr s := by
    refine hrun.mono ?_
    rintro s a (rfl | rfl) <;> trivial
  have hlife := hfirst.trans horderly
  have hreturned := List.mem_append_right ([] ++ called.2.toList) (of_decide_eq_true htest.2)
  exact ⟨_, s, hlife, messageBrokerFree_of_run hlife htest.1 hreturned 0⟩

end

end Miez.Proofs.MessageBroker
