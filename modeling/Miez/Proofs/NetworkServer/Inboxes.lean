import Miez.Proofs.NetworkServer.Detach

/-!
# `Miez.Proofs.NetworkServer.Inboxes`: who takes messages out of an inbox

A subscription of the network is read by the receiver thread of the connection that owns it and by
no other thread (`got_of_netStep`). It is unsubscribed by the thread that is about to free it
(`LeavingInv`). These facts hold in every run, with or without failing allocations.
-/

set_option autoImplicit false

namespace Miez.Proofs.NetworkServer

open Miez.Lib
open Miez.NetworkServer
open Miez.ThreadPool (Tid)
open Miez.Proofs

section
variable {n : Nat} {capacity : UInt64} {hcap : capacity ≠ 0} {apiKey : Option CString}

/-! ### One receiver for each subscription -/

/-- A handler that has followed a pointer to a freed subscription has no receiver. -/
theorem receiver_of_faulted {K : State n → Action n → Prop} {tr : List (Event n)} {s : State n}
    (h : (machine n capacity hcap apiKey).RunIf K tr s) (i : Nat)
    (hpc : (s.connection i).handler = .faulted) : (s.connection i).receiver = .absent := by
  refine h.induction (I := fun _ s => ∀ i, (s.connection i).handler = .faulted →
    (s.connection i).receiver = .absent) ?_ ?_ i hpc
  · intro i hpc
    rfl
  · intro tr s a s' e hrun hinv hK hnext i hpc
    have hconn := connectionInv_of_run hrun i
    have hsingle := (ownershipInv_of_run hrun).single
    -- The reads before the link do not fault.
    have hread : ∀ pc : UInt64 → HandlerPc, heldBy (s.connection i) = (s.connection i).subscription →
        (s.connection i).subscription ≠ none →
        ∃ id, withId s.broker.shared (s.connection i) pc = pc id := by
      intro pc hheld hsub
      obtain ⟨k, hk⟩ := Option.ne_none_iff_exists'.mp hsub
      have hlive := hsingle.held_live i k (hheld.trans hk)
      exact ⟨_, by rw [withId, getId_of_live hk hlive.2]⟩
    cases (next_netStep hnext).connectionStep i with
    | same hctx _ =>
        rw [hctx] at hpc ⊢
        exact hinv i hpc
    | accept _ hctx _ =>
        rw [hctx] at hpc
        cases hpc
    | handler hstep _ =>
        generalize s'.connection i = ctx' at hstep hpc ⊢
        generalize s'.detachedSubscriptions = registry' at hstep
        unfold ConnectionInv at hconn
        cases hstep with
        | command => exact absurd hpc (handleCommand_ne rfl)
        | @reply r last _ => cases last <;> cases hpc
        | @createReceiver attach _ => cases attach <;> cases hpc
        | @createFailed attach _ => cases attach <;> cases hpc
        | getId hget =>
            rw [hget] at hconn
            obtain ⟨id, hid⟩ := hread (fun id => .reply (.okNumber id.toNat) false)
              (by simp [heldBy, hget]) hconn.1
            rw [hid] at hpc
            cases hpc
        | addDetached hadd =>
            rw [hadd] at hconn
            exact hconn.2
        | addFailed hadd =>
            rw [hadd] at hconn
            exact hconn.2
        | detachFault hget _ =>
            rw [hget] at hconn
            exact hconn.2
        | leave _ =>
            simp only at hpc
            split_ifs at hpc
        | _ => cases hpc
    | handlerCall hstep _ =>
        generalize s'.connection i = ctx' at hstep hpc
        cases hstep <;> cases hpc
    | receiver hstep _ =>
        generalize s'.connection i = ctx' at hstep hpc ⊢
        generalize s'.detachedSubscriptions = registry' at hstep
        have habsent := hinv i (by cases hstep <;> exact hpc)
        cases hstep <;> simp_all
    | receiverCall hstep _ =>
        generalize s'.connection i = ctx' at hstep hpc ⊢
        have habsent := hinv i (by cases hstep; exact hpc)
        cases hstep
        simp_all
    | @handlerReturn b e hctx _ _ _ _ =>
        have hsame : handlerReturn (s.connection i) e = s.connection i := by
          rw [hctx] at hpc
          unfold handlerReturn at hpc ⊢
          split at hpc <;> first | cases hpc | rfl
        rw [hctx, hsame] at hpc ⊢
        exact hinv i hpc
    | @receiverReturn b e hctx _ _ _ _ =>
        rw [hctx] at hpc ⊢
        rw [receiverReturn_absent_iff]
        exact hinv i ((receiverReturn_fields (s.connection i) e).1.symm.trans hpc)

/-- A connection with a receiver owns what it points to. -/
theorem heldBy_of_receiver {K : State n → Action n → Prop} {tr : List (Event n)} {s : State n}
    (h : (machine n capacity hcap apiKey).RunIf K tr s) {i : Nat}
    (hreceiver : (s.connection i).receiver ≠ .absent) :
    heldBy (s.connection i) = (s.connection i).subscription := by
  refine heldBy_eq (fun hpc => ?_) (fun hpc => ?_)
  · have hconn := connectionInv_of_run h i
    unfold ConnectionInv at hconn
    rw [hpc] at hconn
    exact hreceiver hconn.2
  · exact hreceiver (receiver_of_faulted h i hpc)

/-- Two connections with a receiver do not point to one subscription. -/
theorem receiver_unique {K : State n → Action n → Prop} {tr : List (Event n)} {s : State n}
    (h : (machine n capacity hcap apiKey).RunIf K tr s) {i j k : Nat}
    (hi : (s.connection i).subscription = some k) (hj : (s.connection j).subscription = some k)
    (hri : (s.connection i).receiver ≠ .absent) (hrj : (s.connection j).receiver ≠ .absent) :
    i = j := by
  have hsingle := (ownershipInv_of_run h).single
  exact hsingle.unique i j k ((heldBy_of_receiver h hri).trans hi)
    ((heldBy_of_receiver h hrj).trans hj)

/-! ### The events of calls -/

/-- The event of a call of the broker by a thread outside the broker. -/
theorem next_call_event {b b' : MessageBroker.State n} {client : Client}
    {call : MessageBroker.Move n} {e : MessageBroker.Event n} (hcall : isCall call = true)
    (h : MessageBroker.next b (callAction client call) = some (b', some e)) :
    (∀ t k x msg, e ≠ .got t k x msg) ∧ (∀ t k, e ≠ .freed t k) := by
  constructor
  · rintro t k x msg rfl
    obtain ⟨ha, -⟩ := MessageBroker.next_got h
    obtain ⟨-, rfl⟩ : _ ∧ call = .go := by simpa using ha
    cases hcall
  · rintro t k rfl
    obtain ⟨ha, -⟩ := MessageBroker.next_freed h
    obtain ⟨-, rfl⟩ : _ ∧ call = .go := by simpa using ha
    cases hcall

/-- A message is handed out to the receiver of a connection that points to the subscription. -/
theorem got_of_netStep {K : State n → Action n → Prop} {tr : List (Event n)} {s s' : State n}
    {a : Action n} {e : Option (Event n)} {t : Tid n} {k x : Nat}
    {msg : Option MessageBroker.Message}
    (hrun : (machine n capacity hcap apiKey).RunIf K tr s) (h : NetStep apiKey s a s' e)
    (he : e.bind brokerEvent = some (.got t k x msg)) :
    ∃ i, t = .client (Client.receiver i).number ∧ a = .broker (.thread t .go) ∧
      s.broker.pc t = .receive k true (.dequeue x) ∧
      (s.connection i).receiver = .receiving ∧ (s.connection i).subscription = some k ∧
      MessageBroker.Owned (brokerTrace tr) k x ∧
      s'.connection = Function.update s.connection i
        (receiverReturn (s.connection i) (some (.got t k x msg))) ∧
      s'.detachedSubscriptions = s.detachedSubscriptions := by
  have hcalls := callInv_of_run hrun
  have hbroker := brokerRun_of_run (hrun.mono fun _ _ _ => trivial)
  cases h with
  | handler h => cases clientHandler_step rfl h <;> cases he
  | @handlerCall i move ctx call b e h hb =>
      rw [brokerEvent_callEvent] at he
      subst he
      exact absurd rfl ((next_call_event (clientHandler_step rfl h).handlerCall_eq.1 hb).1 _ _ _ _)
  | receiver h => cases subscriberReceiverThread_step h <;> cases he
  | @receiverCall i move ctx call b e h hb =>
      rw [brokerEvent_callEvent] at he
      subst he
      exact absurd rfl ((next_call_event
        ((subscriberReceiverThread_step h).calls.2.2 _ _ rfl).1 hb).1 _ _ _ _)
  | freeUnsubscribe _ _ hb | freeFree _ _ hb | publish hb =>
      rw [brokerEvent_broker] at he
      subst he
      exact absurd rfl ((next_call_event rfl hb).1 _ _ _ _)
  | @inside a b e hinside hb hstay =>
      rw [brokerEvent_broker] at he
      subst he
      obtain ⟨rfl, tryReceive, hpc⟩ := MessageBroker.next_got hb
      -- The step is the return of the call.
      exfalso
      have heffect := next_callEffect hb
      change CallEffect t _ (callOf (s.broker.pc t)) b.shared (callOf (b.pc t)) _ at heffect
      rw [hpc] at heffect
      cases t with
      | dispatcher d =>
          rcases callOf_dispatcher hbroker d with h | h
          · rw [hpc] at h
            cases h
          · rw [hpc] at h
            cases h
      | client c =>
          have hidle := hstay c rfl
          generalize hc : callOf (b.pc (.client c)) = c' at heffect
          cases heffect with
          | stay _ hquiet =>
              have hreturn := hquiet _ rfl
              cases hreturn
          | leave hc' => rcases hc' with h | h | h <;> cases h
          | received => exact hidle (callOf_eq_outside.mp hc)
  | @back a client b e hinside hb hclient hidle =>
      rw [brokerEvent_broker] at he
      subst he
      obtain ⟨rfl, tryReceive, hpc⟩ := MessageBroker.next_got hb
      obtain rfl : t = .client client.number := by
        have hactor : actor (.thread t .go : MessageBroker.Action n) = .client client.number :=
          actor_of_clientNumber.mpr hclient
        exact hactor
      have hexpected := hcalls client
      rw [hpc] at hexpected
      have hloaded := (MessageBroker.pointerInv_of_run hbroker).loaded _ k x (by rw [hpc]; rfl)
      cases client with
      | receiver i =>
          have hcall : Call.receive k tryReceive = receiverCall (s.connection i) := hexpected
          unfold receiverCall at hcall
          split at hcall
          · rename_i hreceiver
            cases hsub : (s.connection i).subscription with
            | none =>
                rw [hsub] at hcall
                cases hcall
            | some k' =>
                rw [hsub] at hcall
                cases hcall
                exact ⟨i, rfl, rfl, hpc, hreceiver, hsub, hloaded, rfl, rfl⟩
          · cases hcall
      | handler i =>
          have hcall : Call.receive k tryReceive = handlerCall (s.connection i) := hexpected
          unfold handlerCall at hcall
          cases hsub : (s.connection i).subscription <;> rw [hsub] at hcall <;>
            split at hcall <;> cases hcall
      | main =>
          have hcall : Call.receive k tryReceive = mainCall s.main s.detachedSubscriptions :=
            hexpected
          unfold mainCall at hcall
          split at hcall <;> cases hcall
      | publisher j => rcases hexpected with h | h <;> cases h
  | accept | stop | freeStart | freeEnd => cases he

/-! ### Subscriptions that are being unsubscribed -/

/-- The handler has called `subscription_unsubscribe`. -/
def isLeaving : HandlerPc → Bool
  | .unsubscribing | .callFree | .freeing => true
  | _ => false

/-- The thread that frees the server has called `subscription_unsubscribe` for the first node. -/
def mainLeaving : MainPc → Bool
  | .unsubscribing | .callFree | .freeing => true
  | _ => false

/-- The three program points. -/
theorem mainLeaving_iff {pc : MainPc} :
    mainLeaving pc = true ↔ pc = .unsubscribing ∨ pc = .callFree ∨ pc = .freeing := by
  cases pc <;> simp [mainLeaving]

/-- A subscription is unsubscribed by the thread that frees it. -/
def Leaving (s : State n) (k : Nat) : Prop :=
  (s.broker.shared.subscription k).released = true ∨
  (∃ i, (s.connection i).subscription = some k ∧ isLeaving (s.connection i).handler = true) ∨
  (mainLeaving s.main = true ∧ ∃ id rest, s.detachedSubscriptions = (id, k) :: rest)

/-- A subscription that was freed stays freed. -/
theorem OwnerStep.released {s s' : State n} {e : Option (Event n)} (h : OwnerStep s s' e) {k : Nat}
    (hk : k < s.broker.shared.nextSubscription)
    (hreleased : (s.broker.shared.subscription k).released = true) :
    (s'.broker.shared.subscription k).released = true := by
  cases h with
  | same _ _ hsame _ => rw [hsame.released, hreleased]
  | subscribed i t id name x _ _ _ hshared _ =>
      rw [hshared]
      show (Function.update s.broker.shared.subscription _ _ k).released = true
      rw [Function.update_of_ne (Nat.ne_of_lt hk), hreleased]
  | attached _ _ _ _ _ _ _ _ _ hbroker _ | linked _ _ _ _ _ _ _ hbroker _ =>
      rw [hbroker, hreleased]
  | freed _ _ k' _ _ _ hshared _ | freedNode _ _ k' _ _ hshared _ =>
      rw [hshared]
      show (Function.update s.broker.shared.subscription k' _ k).released = true
      by_cases hkk : k = k'
      · subst hkk
        rw [Function.update_self]
      · rw [Function.update_of_ne hkk, hreleased]

/-- An unsubscribe of the network is called by a thread that is going to free the subscription. -/
theorem leaving_of_unsubscribeCall {s s' : State n} {a : Action n} {e : Option (Event n)}
    {t : Tid n} {k : Nat} (h : NetStep apiKey s a s' e)
    (he : e.bind brokerEvent = some (.unsubscribeCall t k)) :
    k < s.broker.shared.nextSubscription ∧ Leaving s' k := by
  cases h with
  | handler h => cases clientHandler_step rfl h <;> cases he
  | @handlerCall i move ctx call b e h hb =>
      rw [brokerEvent_callEvent] at he
      subst he
      obtain ⟨ha, -, hk⟩ := MessageBroker.next_unsubscribeCall hb
      refine ⟨hk, Or.inr (Or.inl ⟨i, ?_⟩)⟩
      show (Function.update s.connection i ctx i).subscription = some k ∧
        isLeaving (Function.update s.connection i ctx i).handler = true
      rw [Function.update_self]
      have hstep := clientHandler_step rfl h
      rcases ha with ha | ha
      · obtain ⟨-, rfl⟩ : _ ∧ call = .callUnsubscribe k := by simpa using ha
        cases hstep with
        | callUnsubscribe _ hsub => exact ⟨hsub, rfl⟩
      · obtain ⟨-, rfl⟩ : _ ∧ call = .callFree k := by simpa using ha
        cases hstep with
        | callFree _ hsub => exact ⟨hsub, rfl⟩
  | receiver h => cases subscriberReceiverThread_step h <;> cases he
  | @receiverCall i move ctx call b e h hb =>
      rw [brokerEvent_callEvent] at he
      subst he
      obtain ⟨ha, -⟩ := MessageBroker.next_unsubscribeCall hb
      cases subscriberReceiverThread_step h
      rcases ha with ha | ha <;> simp at ha
  | @freeUnsubscribe node rest b e hmain hcons hb =>
      rw [brokerEvent_broker] at he
      subst he
      obtain ⟨ha, -, hk⟩ := MessageBroker.next_unsubscribeCall hb
      obtain ⟨-, rfl⟩ : _ ∧ node.2 = k := by simpa using ha
      exact ⟨hk, Or.inr (Or.inr ⟨rfl, node.1, rest, hcons⟩)⟩
  | @freeFree node rest b e hmain hcons hb =>
      rw [brokerEvent_broker] at he
      subst he
      obtain ⟨ha, -, hk⟩ := MessageBroker.next_unsubscribeCall hb
      obtain ⟨-, rfl⟩ : _ ∧ node.2 = k := by simpa using ha
      exact ⟨hk, Or.inr (Or.inr ⟨rfl, node.1, rest, hcons⟩)⟩
  | publish hb =>
      rw [brokerEvent_broker] at he
      subst he
      obtain ⟨ha, -⟩ := MessageBroker.next_unsubscribeCall hb
      rcases ha with ha | ha <;> simp at ha
  | inside hinside hb _ | back hinside hb _ _ =>
      -- A thread inside the broker makes no call.
      rw [brokerEvent_broker] at he
      subst he
      obtain ⟨ha, hidle, -⟩ := MessageBroker.next_unsubscribeCall hb
      exfalso
      rcases ha with rfl | rfl <;> simp [isInside, hidle] at hinside
  | accept | stop | freeStart | freeEnd => cases he

/-- A connection that has called `subscription_unsubscribe` goes on until it has freed the
subscription. -/
theorem leaving_of_connection {K : State n → Action n → Prop} {tr : List (Event n)}
    {s s' : State n} {a : Action n} {e : Option (Event n)} {i k : Nat}
    (hrun : (machine n capacity hcap apiKey).RunIf K tr s) (h : NetStep apiKey s a s' e)
    (hk : (s.connection i).subscription = some k)
    (hpc : isLeaving (s.connection i).handler = true) : Leaving s' k := by
  have hstay : (s'.connection i).subscription = (s.connection i).subscription →
      isLeaving (s'.connection i).handler = true → Leaving s' k :=
    fun hsub hpc' => Or.inr (Or.inl ⟨i, hsub.trans hk, hpc'⟩)
  cases h.connectionStep i with
  | same hctx _ => exact hstay (by rw [hctx]) (by rw [hctx]; exact hpc)
  | accept hi _ _ =>
      rw [noConnection_of_run (hrun.mono fun _ _ _ => trivial) i hi.ge] at hpc
      cases hpc
  | handler hstep _ =>
      generalize s'.connection i = ctx' at hstep
      generalize s'.detachedSubscriptions = registry' at hstep
      cases hstep <;> simp_all [isLeaving]
  | handlerCall hstep _ =>
      generalize s'.connection i = ctx' at hstep hstay
      cases hstep with
      | callFree _ _ => exact hstay rfl rfl
      | callUnsubscribe hpc' _ => simp_all [isLeaving]
      | callSubscribe hpc' => simp_all [isLeaving]
      | callPending hpc' _ => simp_all [isLeaving]
      | callPublish hpc' => simp_all [isLeaving]
  | receiver hstep _ =>
      generalize s'.connection i = ctx' at hstep hstay
      generalize s'.detachedSubscriptions = registry' at hstep
      cases hstep <;> exact hstay rfl hpc
  | receiverCall hstep _ =>
      generalize s'.connection i = ctx' at hstep hstay
      cases hstep
      exact hstay rfl hpc
  | @handlerReturn b e hctx hinside hb hclient hidle =>
      have heffect := next_callEffect hb
      have hactor : actor b = .client (Client.handler i).number := actor_of_clientNumber.mpr hclient
      have hexpected : callOf _ = handlerCall (s.connection i) := callInv_of_run hrun (.handler i)
      rw [hactor, hidle, hexpected] at heffect
      have hcalling : handlerCall (s.connection i) ≠ .outside := by
        rw [← hexpected]
        exact fun h => not_idle_of_inside hinside hb hclient (callOf_eq_outside.mp h)
      have hreturns := handlerReturn_returns heffect hcalling
      rw [← hctx] at hreturns
      generalize hctx' : s'.connection i = ctx' at hreturns hstay
      generalize hshared : s'.broker.shared = sh' at hreturns
      cases hreturns with
      | subscribed _ _ _ hpc' =>
          rw [hpc'] at hpc
          cases hpc
      | replied _ hpc' _ =>
          rcases hpc' with hpc' | hpc' | ⟨hpc', -⟩ <;>
          · rw [hpc'] at hpc
            cases hpc
      | unsubscribed => exact hstay rfl rfl
      | freed k' hpc' hk' hlive =>
          obtain rfl : k = k' := Option.some.inj (hk.symm.trans hk')
          refine Or.inl ?_
          rw [hshared]
          show (Function.update s.broker.shared.subscription k _ k).released = true
          rw [Function.update_self]
  | @receiverReturn b e hctx _ _ _ _ =>
      obtain ⟨hhandler, hsub⟩ := receiverReturn_fields (s.connection i) e
      refine hstay (by rw [hctx, hsub]) ?_
      rw [hctx, hhandler]
      exact hpc

/-- The thread that frees the server goes on until it has freed the first node. -/
theorem leaving_of_main {s s' : State n} {a : Action n} {e : Option (Event n)} {id : UInt64}
    {k : Nat} {rest : List Detached} (h : NetStep apiKey s a s' e) (howner : OwnerStep s s' e)
    (hclosed : ClosedInv s) (hmain : mainLeaving s.main = true)
    (hfirst : s.detachedSubscriptions = (id, k) :: rest) : Leaving s' k := by
  have hstay : mainLeaving s'.main = true →
      s'.detachedSubscriptions = s.detachedSubscriptions → Leaving s' k :=
    fun hmain' hregistry => Or.inr (Or.inr ⟨hmain', id, rest, hregistry.trans hfirst⟩)
  -- The handlers have left.
  have hnot : ∀ {i running sh registry move} {o : Outcome n},
      ¬ HandlerStep apiKey i running sh registry (s.connection i) move o := by
    intro i running sh registry move o hstep
    refine hstep.not_closed ((hclosed ?_).2 i)
    intro hserving
    rw [hserving] at hmain
    cases hmain
  cases h with
  | handler h => exact absurd (clientHandler_step rfl h) hnot
  | handlerCall h _ => exact absurd (clientHandler_step rfl h) hnot
  | receiver h =>
      refine hstay hmain ?_
      cases subscriberReceiverThread_step h <;> rfl
  | freeStart hserving _ =>
      rw [hserving] at hmain
      cases hmain
  | freeEnd hnode _ | freeUnsubscribe hnode _ _ =>
      rw [hnode] at hmain
      cases hmain
  | freeFree _ _ _ => exact hstay rfl rfl
  | accept | receiverCall | stop | publish | inside => exact hstay hmain rfl
  | @back a client b e hinside hb hclient hidle =>
      cases client with
      | handler i | receiver i | publisher j => exact hstay hmain rfl
      | main =>
          rcases mainLeaving_iff.mp hmain with hpc | hpc | hpc
          · refine hstay ?_ ?_
            · simp only [State.returnTo, hpc]
              rfl
            · simp only [State.returnTo, hpc]
          · refine hstay ?_ ?_
            · simp only [State.returnTo, hpc]
              rfl
            · simp only [State.returnTo, hpc]
          · -- The node goes, so its subscription was freed.
            have hrest : (State.returnTo { s with broker := b } .main e).detachedSubscriptions
                = rest := by
              simp only [State.returnTo, hpc, hfirst, List.tail_cons]
            have hne : (State.returnTo { s with broker := b } .main e).detachedSubscriptions
                ≠ s.detachedSubscriptions := by
              rw [hrest, hfirst]
              exact fun h => List.cons_ne_self _ _ h.symm
            cases howner with
            | same _ hregistry _ _ | subscribed _ _ _ _ _ _ _ hregistry _ _
            | freed _ _ _ _ _ hregistry _ _ => exact absurd hregistry hne
            | attached i id k pre post _ _ _ _ _ he => cases e <;> cases he
            | linked i id k _ _ _ _ _ he => cases e <;> cases he
            | freedNode t id' k' _ hregistry hshared _ =>
                rw [hrest, hfirst] at hregistry
                obtain ⟨-, rfl⟩ : id = id' ∧ k = k' := by simpa using hregistry
                refine Or.inl ?_
                rw [hshared]
                show (Function.update s.broker.shared.subscription k _ k).released = true
                rw [Function.update_self]

/-- The ownership step of a step of a run. -/
theorem ownerStep_of_next {K : State n → Action n → Prop} {tr : List (Event n)} {s s' : State n}
    {a : Action n} {e : Option (Event n)}
    (hrun : (machine n capacity hcap apiKey).RunIf K tr s) (h : NetStep apiKey s a s' e) :
    OwnerStep s s' e :=
  ownerStep_of_netStep hrun h fun i k hk =>
    ((ownershipInv_of_run hrun).single.held_live i k hk).2

/-- A subscription that has been unsubscribed is freed, or a thread is on the way to free it. -/
theorem leaving_of_run {K : State n → Action n → Prop} {tr : List (Event n)} {s : State n}
    (h : (machine n capacity hcap apiKey).RunIf K tr s) (k : Nat)
    (hk : MessageBroker.Unsubscribed (brokerTrace tr) k) :
    k < s.broker.shared.nextSubscription ∧ Leaving s k := by
  refine h.induction (I := fun tr s => ∀ k, MessageBroker.Unsubscribed (brokerTrace tr) k →
    k < s.broker.shared.nextSubscription ∧ Leaving s k) ?_ ?_ k hk
  · intro k hk
    obtain ⟨t, ht⟩ := hk
    cases ht
  · intro tr s a s' e hrun hinv hK hnext k hk
    have hstep := next_netStep hnext
    have howner := ownerStep_of_next hrun hstep
    obtain ⟨t, ht⟩ := hk
    rw [brokerTrace_append, List.mem_append, Option.mem_toList] at ht
    rcases ht with ht | ht
    · obtain ⟨hlt, hleaving⟩ := hinv k ⟨t, ht⟩
      refine ⟨hlt.trans_le howner.nextSubscription_le, ?_⟩
      rcases hleaving with hreleased | ⟨i, hsub, hpc⟩ | ⟨hmain, id, rest, hfirst⟩
      · exact Or.inl (howner.released hlt hreleased)
      · exact leaving_of_connection hrun hstep hsub hpc
      · exact leaving_of_main hstep howner (closedInv_of_run hrun) hmain hfirst
    · obtain ⟨hlt, hleaving⟩ := leaving_of_unsubscribeCall hstep ht
      exact ⟨hlt.trans_le howner.nextSubscription_le, hleaving⟩

/-- A connection that owns a subscription and is not leaving has it subscribed. -/
theorem not_unsubscribed {K : State n → Action n → Prop} {tr : List (Event n)} {s : State n}
    (h : (machine n capacity hcap apiKey).RunIf K tr s) {i k : Nat}
    (hheld : heldBy (s.connection i) = some k)
    (hpc : isLeaving (s.connection i).handler = false) :
    ¬ MessageBroker.Unsubscribed (brokerTrace tr) k := by
  intro hk
  have hsingle := (ownershipInv_of_run h).single
  rcases (leaving_of_run h k hk).2 with hreleased | ⟨j, hsub, hleaving⟩ | ⟨-, id, rest, hfirst⟩
  · rw [(hsingle.held_live i k hheld).2] at hreleased
    cases hreleased
  · have hj : heldBy (s.connection j) = some k := by
      refine (heldBy_eq (fun hpc => ?_) (fun hpc => ?_)).trans hsub <;>
      · rw [hpc] at hleaving
        cases hleaving
    obtain rfl : i = j := hsingle.unique i j k hheld hj
    rw [hpc] at hleaving
    cases hleaving
  · refine hsingle.apart i k hheld ?_
    rw [hfirst]
    exact List.mem_cons_self ..

end

end Miez.Proofs.NetworkServer
