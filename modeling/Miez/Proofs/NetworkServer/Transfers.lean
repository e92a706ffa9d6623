import Miez.Proofs.NetworkServer.Content
import Miez.Proofs.NetworkServer.Ownership

/-!
# `Miez.Proofs.NetworkServer.Transfers`: what a run does to the owners

The owners of `Miez.Proofs.NetworkServer.Ownership` along a whole run: every subscription is freed
at most once, a node of the registry is taken at most once, and every receiver thread is joined
once. `network_subscriptions_owned` puts the facts together.

The ids in the registry are different as long as fewer than 2^64 subscribes have taken an id. Then
the counter starts again, and two nodes can have one id.
-/

set_option autoImplicit false

namespace Miez.Proofs.NetworkServer

open Miez.Lib
open Miez.NetworkServer
open Miez.ThreadPool (Tid)
open Miez.Proofs
open Miez.Stdio (ascii)

section
variable {n : Nat} {capacity : UInt64} {hcap : capacity ≠ 0} {apiKey : Option CString}

/-! ### Frees -/

/-- The event frees the subscription `k`. -/
def isFreed (k : Nat) : Event n → Bool
  | .broker (.freed _ k') => k' = k
  | _ => false

/-- How often the subscription `k` has been freed. -/
def freedCount (tr : List (Event n)) (k : Nat) : Nat := tr.countP (isFreed k)

/-- An event that changes no owner frees nothing. -/
theorem freedCount_append {tr : List (Event n)} {e : Option (Event n)} {k : Nat}
    (he : ∀ x, e = some x → isFreed k x = false) : freedCount (tr ++ e.toList) k = freedCount tr k := by
  rw [freedCount, List.countP_append]
  cases e with
  | none => rfl
  | some x =>
      rw [Option.toList_some, List.countP_singleton, he x rfl]
      rfl

/-- The free of `k` counts once. -/
theorem freedCount_append_freed (tr : List (Event n)) (t : Tid n) (k k' : Nat) :
    freedCount (tr ++ [.broker (.freed t k)]) k' = freedCount tr k' + if k' = k then 1 else 0 := by
  rw [freedCount, List.countP_append, List.countP_singleton]
  simp [isFreed, freedCount, eq_comm]

/-- A subscription has been freed once when it is released, and never else. -/
def FreedInv (tr : List (Event n)) (s : State n) : Prop :=
  ∀ k, freedCount tr k =
    if k < s.broker.shared.nextSubscription ∧ (s.broker.shared.subscription k).released = true
    then 1 else 0

/-- The owner steps and the steps they come from, in a run. -/
theorem ownerStep_of_run {K : State n → Action n → Prop} {tr : List (Event n)} {s s' : State n}
    {a : Action n} {e : Option (Event n)}
    (hrun : (machine n capacity hcap apiKey).RunIf K tr s)
    (hnext : next apiKey s a = some (s', e)) : OwnerStep s s' e :=
  ownerStep_of_netStep hrun (next_netStep hnext) fun i k hk =>
    ((ownershipInv_of_run hrun).single.held_live i k hk).2

/-- `FreedInv` holds in every state of a run. -/
theorem freedInv_of_run {tr : List (Event n)} {s : State n}
    (h : (machine n capacity hcap apiKey).RunIf AllocationsSucceed tr s) : FreedInv tr s := by
  refine h.induction (I := FreedInv) ?_ ?_
  · intro k
    rw [if_neg (fun hk => Nat.not_lt_zero k hk.1)]
    rfl
  · intro tr s a s' e hrun hinv hK hnext k
    have hsingle := (ownershipInv_of_run hrun).single
    -- the free of a live subscription `k'`
    have hfree : ∀ {t : Tid n} {k' : Nat}, Live s.broker.shared k' →
        e = some (.broker (.freed t k')) →
        s'.broker.shared = s.broker.shared.setSubscription k'
          { s.broker.shared.subscription k' with released := true } →
        freedCount (tr ++ e.toList) k =
          if k < s'.broker.shared.nextSubscription ∧
            (s'.broker.shared.subscription k).released = true then 1 else 0 := by
      intro t k' hlive he hshared
      rw [he, Option.toList_some, freedCount_append_freed, hinv k, hshared]
      by_cases hk : k = k'
      · subst hk
        have hold : ¬ (k < s.broker.shared.nextSubscription ∧
            (s.broker.shared.subscription k).released = true) := by
          rw [hlive.2]
          exact fun h => Bool.false_ne_true h.2
        rw [if_neg hold, if_pos rfl, if_pos]
        exact ⟨hlive.1, by simp [MessageBroker.Shared.setSubscription]⟩
      · simp [MessageBroker.Shared.setSubscription, hk]
    have howner := ownerStep_of_run hrun hnext
    cases howner with
    | same _ _ hsame he =>
        rw [freedCount_append, hinv k, hsame.next, hsame.released]
        intro x hx
        have htransfer := he x hx
        unfold isFreed
        split
        · cases htransfer
        · rfl
    | subscribed i t id name x _ _ _ hshared he =>
        rw [he, freedCount_append (by rintro y ⟨⟩; rfl), hinv k, hshared]
        show _ = if k < s.broker.shared.nextSubscription + 1 ∧
          (Function.update s.broker.shared.subscription _ _ k).released = true then 1 else 0
        by_cases hk : k = s.broker.shared.nextSubscription
        · subst hk
          simp
        · rw [Function.update_of_ne hk]
          have hlt : k < s.broker.shared.nextSubscription + 1 ↔
              k < s.broker.shared.nextSubscription := by omega
          simp only [hlt]
    | attached i id k' pre post _ _ _ _ hbroker he =>
        rw [he, freedCount_append (by rintro y ⟨⟩; rfl), hinv k, hbroker]
    | linked i id k' _ _ _ _ hbroker he =>
        rw [he, freedCount_append (by rintro y ⟨⟩; rfl), hinv k, hbroker]
    | freed i t k' hk _ _ hshared he => exact hfree (hsingle.held_live i k' hk) he hshared
    | freedNode t id k' _ hregistry hshared he =>
        refine hfree (hsingle.pool_live k' ?_) he hshared
        rw [hregistry]
        exact List.mem_cons_self ..

/-! ### The registry -/

/-- The ids in the registry are different as long as the subscriber ids are. -/
theorem registry_ids_nodup {tr : List (Event n)} {s : State n}
    (h : (machine n capacity hcap apiKey).RunIf AllocationsSucceed tr s)
    (hbound : s.broker.shared.nextSubscribe < 2 ^ 64) :
    (s.detachedSubscriptions.map Prod.fst).Nodup := by
  have hinv := ownershipInv_of_run h
  have hids : s.detachedSubscriptions.map Prod.fst =
      (s.detachedSubscriptions.map Prod.snd).map fun k => (s.broker.shared.subscription k).id := by
    rw [List.map_map]
    exact List.map_congr_left hinv.ids
  rw [hids]
  refine hinv.single.nodup.map_on ?_
  intro k hk k' hk' heq
  exact MessageBroker.subscription_id_inj (brokerRunIf_of_run (fun _ _ h => h) h) hbound
    (hinv.single.pool_live k hk).1 (hinv.single.pool_live k' hk').1 heq

/-- The number of subscribes does not fall in a step of the server. -/
theorem nextSubscribe_le_of_netStep {tr : List (Event n)} {s s' : State n} {a : Action n}
    {e : Option (Event n)}
    (hrun : (machine n capacity hcap apiKey).RunIf AllocationsSucceed tr s)
    (hK : AllocationsSucceed s a) (hnext : next apiKey s a = some (s', e)) :
    s.broker.shared.nextSubscribe ≤ s'.broker.shared.nextSubscribe := by
  rcases (next_netStep hnext).broker with ⟨hsame, -⟩ | ⟨b, hb, hstep⟩
  · rw [hsame]
  · refine MessageBroker.nextSubscribe_le_of_next (brokerRunIf_of_run (fun _ _ h => h) hrun) ?_ hstep
    rcases hb with rfl | hb
    · exact hK
    · exact hb

/-- The event links a node with the id. -/
def isLinked (id : UInt64) : Event n → Bool
  | .linked _ id' _ => id' = id
  | _ => false

/-- The event takes a node with the id. -/
def isAttached (id : UInt64) : Event n → Bool
  | .attached _ id' _ => id' = id
  | _ => false

/-- Once a node was taken, its id is not in the registry before a node with that id is linked. So
between two takings of nodes with one id, a node with that id was linked. -/
structure AttachInv (tr : List (Event n)) (s : State n) : Prop where
  gone : ∀ pre x post id, tr = pre ++ x :: post → isAttached id x = true →
    (∀ y ∈ post, isLinked id y = false) → id ∉ s.detachedSubscriptions.map Prod.fst
  apart : ∀ pre x mid y post id, tr = pre ++ x :: (mid ++ y :: post) → isAttached id x = true →
    isAttached id y = true → ∃ z ∈ mid, isLinked id z = true

/-- `AttachInv` is kept by a step that takes only a node of the registry and removes its id. -/
theorem AttachInv.step {tr : List (Event n)} {s s' : State n} {e : Option (Event n)}
    (hinv : AttachInv tr s)
    (he : ∀ id x, e = some x → isAttached id x = true →
      id ∈ s.detachedSubscriptions.map Prod.fst ∧ id ∉ s'.detachedSubscriptions.map Prod.fst)
    (hregistry : ∀ id, id ∈ s'.detachedSubscriptions.map Prod.fst →
      id ∈ s.detachedSubscriptions.map Prod.fst ∨ ∃ x, e = some x ∧ isLinked id x = true) :
    AttachInv (tr ++ e.toList) s' := by
  constructor
  · intro pre x post id htr hx hpost
    rcases append_toList_eq_append_cons htr with ⟨post', rfl, rfl⟩ | ⟨hex, -, -⟩
    · have hnot := hinv.gone pre x post' id rfl hx
        fun y hy => hpost y (List.mem_append_left _ hy)
      intro hmem
      rcases hregistry id hmem with hmem | ⟨y, rfl, hy⟩
      · exact hnot hmem
      · rw [hpost y (List.mem_append_right _ (List.mem_singleton_self y))] at hy
        cases hy
    · exact (he id x hex hx).2
  · intro pre x mid y post id htr hx hy
    have htr' : tr ++ e.toList = (pre ++ x :: mid) ++ y :: post := by
      rw [htr, List.append_assoc, List.cons_append]
    rcases append_toList_eq_append_cons htr' with ⟨post', hold, -⟩ | ⟨hey, hold, -⟩
    · refine hinv.apart pre x mid y post' id ?_ hx hy
      rw [hold, List.append_assoc, List.cons_append]
    · by_contra hnone
      refine hinv.gone pre x mid id hold hx (fun z hz => ?_) (he id y hey hy).1
      by_contra hlinked
      exact hnone ⟨z, hz, by simpa using hlinked⟩

/-- `AttachInv` holds in every state of a run with fewer than 2^64 subscribes. -/
theorem attachInv_of_run {tr : List (Event n)} {s : State n}
    (h : (machine n capacity hcap apiKey).RunIf AllocationsSucceed tr s)
    (hbound : s.broker.shared.nextSubscribe < 2 ^ 64) : AttachInv tr s := by
  refine h.induction (I := fun tr s => s.broker.shared.nextSubscribe < 2 ^ 64 → AttachInv tr s)
    ?_ ?_ hbound
  · intro _
    constructor
    · intro pre x post id htr
      simp at htr
    · intro pre x mid y post id htr
      simp at htr
  · intro tr s a s' e hrun hinv hK hnext hbound'
    have hbound := lt_of_le_of_lt (nextSubscribe_le_of_netStep hrun hK hnext) hbound'
    have hinv := hinv hbound
    have howner := ownerStep_of_run hrun hnext
    -- a step that takes no node
    have hkeep : (∀ id x, e = some x → isAttached id x = false) →
        (∀ id, id ∈ s'.detachedSubscriptions.map Prod.fst →
          id ∈ s.detachedSubscriptions.map Prod.fst ∨ ∃ x, e = some x ∧ isLinked id x = true) →
        AttachInv (tr ++ e.toList) s' := by
      intro he hregistry
      refine hinv.step (fun id x hex hx => ?_) hregistry
      rw [he id x hex] at hx
      cases hx
    cases howner with
    | same _ hregistry _ he =>
        refine hkeep ?_ (fun id hid => Or.inl (hregistry ▸ hid))
        intro id x hx
        have htransfer := he x hx
        unfold isAttached
        split
        · cases htransfer
        · rfl
    | subscribed i t id name x _ _ hregistry _ he =>
        subst he
        exact hkeep (by rintro id x ⟨⟩; rfl) fun id hid => Or.inl (hregistry ▸ hid)
    | attached i id k as bs _ _ hold hnew _ he =>
        subst he
        have hnodup := registry_ids_nodup hrun hbound
        rw [hold, List.map_append, List.map_cons] at hnodup
        refine hinv.step ?_ ?_
        · intro id' x hex hx
          obtain rfl := Option.some.inj hex
          obtain rfl : id = id' := of_decide_eq_true hx
          constructor
          · rw [hold, List.map_append, List.map_cons]
            exact List.mem_append_right _ (List.mem_cons_self ..)
          · -- the only node with the id is the one that is taken
            rw [hnew, List.map_append]
            exact (List.nodup_middle.mp hnodup).notMem
        · intro id' hid'
          rw [hnew, List.map_append] at hid'
          rw [hold, List.map_append, List.map_cons]
          exact Or.inl (List.mem_append.mpr
            ((List.mem_append.mp hid').imp_right (List.mem_cons_of_mem _)))
    | linked i id k _ _ _ hregistry _ he =>
        subst he
        refine hkeep (by rintro id x ⟨⟩; rfl) ?_
        intro id' hid'
        rw [hregistry, List.map_cons] at hid'
        rcases List.mem_cons.mp hid' with rfl | hid'
        · exact Or.inr ⟨_, rfl, decide_eq_true rfl⟩
        · exact Or.inl hid'
    | freed i t k _ _ hregistry _ he =>
        subst he
        exact hkeep (by rintro id x ⟨⟩; rfl) fun id hid => Or.inl (hregistry ▸ hid)
    | freedNode t id k _ hregistry _ he =>
        subst he
        refine hkeep (by rintro id x ⟨⟩; rfl) fun id hid => Or.inl ?_
        rw [hregistry]
        exact List.mem_cons_of_mem _ hid

/-! ### Receiver threads -/

/-- The start of a receiver thread of the connection `i`, or the join of one. -/
def receiverEvent (i : Nat) : Event n → Option Bool
  | .receiverCreated j => if j = i then some true else none
  | .receiverJoined j => if j = i then some false else none
  | _ => none

/-- The starts and joins of the receiver threads of the connection `i`. -/
def receiverLog (i : Nat) (tr : List (Event n)) : List Bool := tr.filterMap (receiverEvent i)

/-- The threads of `m` starts, each of them joined. -/
def joined (m : Nat) : List Bool := (List.replicate m [true, false]).flatten

/-- All threads that were started have been joined, except the one that there is. -/
def ReceiverInv (i : Nat) (tr : List (Event n)) (s : State n) : Prop :=
  ∃ m, receiverLog i tr =
    joined m ++ if (s.connection i).receiver = .absent then [] else [true]

/-- What a step does to the receiver thread of a connection. -/
inductive ReceiverChange (i : Nat) (pc pc' : ReceiverPc) (e : Option (Event n)) : Prop where
  | same (hpc : pc' = .absent ↔ pc = .absent) (he : e.bind (receiverEvent i) = none)
  | created (hpc : pc = .absent) (hpc' : pc' ≠ .absent) (he : e = some (.receiverCreated i))
  | joined (hpc : pc ≠ .absent) (hpc' : pc' = .absent) (he : e = some (.receiverJoined i))

/-- A handler starts a receiver when there is none and joins it when there is one. -/
theorem HandlerStep.receiverChange {i : Nat} {running : Bool} {sh : MessageBroker.Shared n}
    {registry registry' : List Detached} {ctx ctx' : Connection} {move : Move}
    {e : Option (Event n)}
    (h : HandlerStep apiKey i running sh registry ctx move (.step ctx' registry' e))
    (hinv : ConnectionInv ctx) : ReceiverChange i ctx.receiver ctx'.receiver e := by
  unfold ConnectionInv at hinv
  cases h with
  | command => exact .same (by rw [(handleCommand_fields ..).2.2.2]) rfl
  | @createReceiver attach hpc =>
      rw [hpc] at hinv
      exact .created hinv.2 (by simp) rfl
  | joinDetach hpc hexited | joinLeave hpc hexited => exact .joined (by simp [hexited]) rfl rfl
  | _ => exact .same Iff.rfl rfl

/-- A handler of another connection does nothing to the receiver. -/
theorem HandlerStep.receiverEvent_ne {i j : Nat} {running : Bool} {sh : MessageBroker.Shared n}
    {registry registry' : List Detached} {ctx ctx' : Connection} {move : Move}
    {e : Option (Event n)}
    (h : HandlerStep apiKey j running sh registry ctx move (.step ctx' registry' e))
    (hne : i ≠ j) : e.bind (receiverEvent i) = none := by
  cases h with
  | createReceiver => exact if_neg hne.symm
  | joinDetach => exact if_neg hne.symm
  | joinLeave => exact if_neg hne.symm
  | _ => rfl

/-- A receiver does not start or join receivers, and it stays. -/
theorem ReceiverStep.stays {j : Nat} {registry : List Detached} {ctx : Connection} {move : Move}
    {o : Outcome n} (h : ReceiverStep j registry ctx move o) (i : Nat) :
    (∀ ctx' registry' e, o = .step ctx' registry' e → e.bind (receiverEvent i) = none ∧
      (ctx'.receiver = .absent ↔ ctx.receiver = .absent)) ∧
    (∀ ctx' call, o = .call ctx' call →
      (ctx'.receiver = .absent ↔ ctx.receiver = .absent)) := by
  cases h with
  | callReceive hpc =>
      refine ⟨fun _ _ _ h => (by cases h), ?_⟩
      rintro ctx' call ⟨⟩
      simp [hpc]
  | goOn hpc | exit hpc | malloc hpc | mallocFailed hpc | write hpc | writeFailed hpc
  | sleep hpc =>
      refine ⟨?_, fun _ _ h => by cases h⟩
      rintro ctx' registry' e ⟨⟩
      exact ⟨rfl, by simp [hpc]⟩

/-- The broker does not start or join receivers. -/
theorem receiverEvent_broker (i : Nat) (e : Option (MessageBroker.Event n)) :
    (e.map Event.broker).bind (receiverEvent i) = none := by
  cases e with
  | none => rfl
  | some e => rfl

/-- A call of the broker does not start or join receivers. -/
theorem receiverEvent_callEvent (i j : Nat) (ctx : Connection)
    (e : Option (MessageBroker.Event n)) :
    (e.map (callEvent j ctx)).bind (receiverEvent i) = none := by
  cases e with
  | none => rfl
  | some e =>
      rw [Option.map_some, Option.bind_some]
      unfold callEvent
      split
      · rfl
      · rfl

/-- A receiver that is back from the broker is there as before. -/
theorem receiverReturn_absent_iff (ctx : Connection) (e : Option (MessageBroker.Event n)) :
    (receiverReturn ctx e).receiver = .absent ↔ ctx.receiver = .absent := by
  unfold receiverReturn
  split
  · rename_i hpc
    simp [hpc]
  · rename_i hpc _
    simp [hpc]
  · exact Iff.rfl

/-- Every step changes the receiver of a connection in one of the listed ways. -/
theorem NetStep.receiverChange {tr : List (Event n)} {s s' : State n} {a : Action n}
    {e : Option (Event n)}
    (hrun : (machine n capacity hcap apiKey).RunIf AllocationsSucceed tr s)
    (h : NetStep apiKey s a s' e) (i : Nat) :
    ReceiverChange i (s.connection i).receiver (s'.connection i).receiver e := by
  -- a write to one connection
  have hupdate : ∀ {j : Nat} {ctx : Connection},
      s'.connection = Function.update s.connection j ctx →
      (i = j → ReceiverChange i (s.connection j).receiver ctx.receiver e) →
      (i ≠ j → e.bind (receiverEvent i) = none) →
      ReceiverChange i (s.connection i).receiver (s'.connection i).receiver e := by
    intro j ctx hconn hsame hother
    rw [hconn]
    by_cases hij : i = j
    · subst hij
      rw [Function.update_self]
      exact hsame rfl
    · rw [Function.update_of_ne hij]
      exact .same Iff.rfl (hother hij)
  cases h with
  | accept =>
      refine hupdate rfl ?_ fun _ => rfl
      intro hi
      rw [noConnection_of_run (hrun.mono fun _ _ _ => trivial) s.nextConnection (le_refl _)]
      exact .same Iff.rfl rfl
  | handler h =>
      have hstep := clientHandler_step rfl h
      refine hupdate rfl ?_ hstep.receiverEvent_ne
      rintro rfl
      exact hstep.receiverChange (connectionInv_of_run hrun i)
  | @handlerCall j move ctx call b e h hb =>
      refine hupdate rfl ?_ fun _ => receiverEvent_callEvent ..
      rintro rfl
      refine .same ?_ (receiverEvent_callEvent ..)
      cases clientHandler_step rfl h <;> exact Iff.rfl
  | @receiver j move ctx registry e h =>
      obtain ⟨he, hpc⟩ := ((subscriberReceiverThread_step h).stays i).1 _ _ _ rfl
      exact hupdate rfl (fun _ => .same hpc he) fun _ => he
  | @receiverCall j move ctx call b e h hb =>
      have hpc := ((subscriberReceiverThread_step h).stays i).2 _ _ rfl
      exact hupdate rfl (fun _ => .same hpc (receiverEvent_callEvent ..))
        fun _ => receiverEvent_callEvent ..
  | @back a client b e hinside hb hclient hidle =>
      cases client with
      | handler j =>
          refine hupdate rfl (fun _ => .same ?_ (receiverEvent_broker i e))
            fun _ => receiverEvent_broker i e
          rw [handlerReturn_receiver]
      | receiver j =>
          exact hupdate rfl (fun _ => .same (receiverReturn_absent_iff _ e)
            (receiverEvent_broker i e)) fun _ => receiverEvent_broker i e
      | publisher j => exact .same Iff.rfl (receiverEvent_broker i e)
      | main =>
          rw [returnTo_main_connection]
          exact .same Iff.rfl (receiverEvent_broker i e)
  | freeUnsubscribe | freeFree | publish | inside =>
      exact .same Iff.rfl (receiverEvent_broker i _)
  | stop | freeStart | freeEnd => exact .same Iff.rfl rfl

/-- `ReceiverInv` holds in every state of a run. -/
theorem receiverInv_of_run {tr : List (Event n)} {s : State n}
    (h : (machine n capacity hcap apiKey).RunIf AllocationsSucceed tr s) (i : Nat) :
    ReceiverInv i tr s := by
  refine h.induction (I := ReceiverInv i) ⟨0, rfl⟩ ?_
  intro tr s a s' e hrun hinv hK hnext
  obtain ⟨m, hlog⟩ := hinv
  have hchange := (next_netStep hnext).receiverChange hrun i
  cases hchange with
  | same hpc he =>
      refine ⟨m, ?_⟩
      rw [receiverLog, filterMap_append_of_none he]
      simp only [hpc]
      exact hlog
  | created hpc hpc' he =>
      refine ⟨m, ?_⟩
      rw [if_pos hpc, List.append_nil] at hlog
      rw [he, if_neg hpc', receiverLog, Option.toList_some, List.filterMap_append]
      rw [show tr.filterMap (receiverEvent i) = joined m from hlog]
      simp [receiverEvent]
  | joined hpc hpc' he =>
      refine ⟨m + 1, ?_⟩
      rw [if_neg hpc] at hlog
      rw [he, if_pos hpc', receiverLog, Option.toList_some, List.filterMap_append]
      rw [show tr.filterMap (receiverEvent i) = joined m ++ [true] from hlog]
      simp [receiverEvent, NetworkServer.joined, List.replicate_succ']

/-! ### The whole property -/

/-- At the end of `network_server_free` the registry is empty. -/
theorem registry_of_freed {tr : List (Event n)} {s : State n}
    (h : (machine n capacity hcap apiKey).RunIf AllocationsSucceed tr s)
    (hmain : s.main = .freed) : s.detachedSubscriptions = [] := by
  refine h.induction (I := fun _ s => s.main = .freed → s.detachedSubscriptions = []) ?_ ?_ hmain
  · intro _
    rfl
  · intro tr s a s' e hrun hinv hK hnext hmain
    have hclosed := closedInv_of_run hrun
    cases next_netStep hnext with
    | handler h =>
        -- every connection is closed
        have hserving : s.main ≠ .serving := by
          intro hs
          rw [show s.main = .freed from hmain] at hs
          cases hs
        exact absurd ((hclosed hserving).2 _) (clientHandler_step rfl h).not_closed
    | receiver h =>
        show _ = []
        rw [((subscriberReceiverThread_step h).owner.1 _ _ _ rfl).2.1]
        exact hinv hmain
    | freeEnd _ hnil => exact hnil
    | @back a client b e hinside hb hclient hidle =>
        cases client with
        | main =>
            cases hs : s.main with
            | freed =>
                simp only [State.returnTo]
                exact hinv hs
            | _ =>
                simp only [State.returnTo, hs] at hmain
                cases hmain
        | handler j => exact hinv hmain
        | receiver j => exact hinv hmain
        | publisher j => exact hinv hmain
    | freeStart | freeUnsubscribe | freeFree => cases hmain
    | accept | handlerCall | receiverCall | stop | publish | inside => exact hinv hmain

/-- The handler of a connection is not inside a command and has not begun to leave. -/
def inLoop : HandlerPc → Bool
  | .testRunning | .read (.line _) | .leave | .closed | .absent => true
  | _ => false

/-- What holds of the subscriptions of the network in every state of a run. -/
structure NetworkOwnership (tr : List (Event n)) (s : State n) : Prop where
  owner : ∀ k, Live s.broker.shared k → ∃! o : Owner Nat,
    o.Owns (holders s) (s.detachedSubscriptions.map Prod.snd) k
  ids_distinct : (s.detachedSubscriptions.map Prod.fst).Nodup
  ids : ∀ node ∈ s.detachedSubscriptions, node.1 = (s.broker.shared.subscription node.2).id
  attach : ∀ pre x mid y post id, tr = pre ++ x :: (mid ++ y :: post) →
    isAttached id x = true → isAttached id y = true → ∃ z ∈ mid, isLinked id z = true
  receiver : ∀ i, inLoop (s.connection i).handler = true →
    (isRunning (s.connection i).receiver = true ↔ (s.connection i).subscription ≠ none)
  joined : ∀ i, ReceiverInv i tr s
  freed : ∀ k, freedCount tr k ≤ 1
  freed_all : s.main = .freed → ∀ k, k < s.broker.shared.nextSubscription → freedCount tr k = 1
  joined_all : s.main = .freed → ∀ i, ∃ m, receiverLog i tr = NetworkServer.joined m

/-- Single ownership of the network subscriptions, as long as fewer than 2^64 subscribes have taken
an id. -/
theorem network_subscriptions_owned {tr : List (Event n)} {s : State n}
    (h : (machine n capacity hcap apiKey).RunIf AllocationsSucceed tr s)
    (hbound : s.broker.shared.nextSubscribe < 2 ^ 64) : NetworkOwnership tr s := by
  have hinv := ownershipInv_of_run h
  have hconn := connectionInv_of_run h
  have hfreed := freedInv_of_run h
  have hattach := attachInv_of_run h hbound
  have hreceiver := receiverInv_of_run h
  -- at the end all connections are closed and hold nothing
  have hclosed : s.main = .freed → ∀ i, Unattached (s.connection i) ∧ holders s i = none := by
    intro hmain i
    have hhandler := (closedInv_of_run h (by rw [hmain]; simp)).2 i
    have hun := (hconn i).unattached_of_closed hhandler
    refine ⟨hun, ?_⟩
    rw [holders, heldBy_eq (by rcases hhandler with h | h <;> simp [h])
      (by rcases hhandler with h | h <;> simp [h]), hun.subscription]
  refine ⟨fun k hk => hinv.single.existsUnique_owner hk, registry_ids_nodup h hbound, hinv.ids,
    hattach.apart, ?_, hreceiver, ?_, ?_, ?_⟩
  · intro i hloop
    have hi := hconn i
    have hrunning := runningInv_of_run h i
    unfold ConnectionInv at hi
    unfold RunningInv at hrunning
    have hcases : Unattached (s.connection i) ∨
        ((s.connection i).subscription ≠ none ∧ isRunning (s.connection i).receiver = true) := by
      cases hpc : (s.connection i).handler with
      | testRunning | leave =>
          rw [hpc] at hi hrunning
          exact hi.imp_right fun hi => ⟨hi.1, (hrunning hi.1).2⟩
      | read pc =>
          rw [hpc] at hi hrunning
          exact hi.imp_right fun hi => ⟨hi.1, (hrunning hi.1).2⟩
      | closed | absent =>
          rw [hpc] at hi
          exact Or.inl hi
      | _ =>
          rw [hpc] at hloop
          cases hloop
    rcases hcases with hun | hatt
    · rw [hun.receiver, hun.subscription]
      simp [isRunning]
    · exact ⟨fun _ => hatt.1, fun _ => hatt.2⟩
  · intro k
    rw [hfreed k]
    split
    · exact le_refl 1
    · exact Nat.zero_le 1
  · intro hmain k hk
    rw [hfreed k, if_pos]
    refine ⟨hk, ?_⟩
    by_contra hreleased
    rcases hinv.single.owned k ⟨hk, by simpa using hreleased⟩ with ⟨i, hi⟩ | hmem
    · rw [(hclosed hmain i).2] at hi
      cases hi
    · rw [registry_of_freed h hmain] at hmem
      cases hmem
  · intro hmain i
    obtain ⟨m, hlog⟩ := hreceiver i
    refine ⟨m, ?_⟩
    rw [hlog, if_pos (hclosed hmain i).1.receiver, List.append_nil]

end

/-! ### Runs on fixed inputs -/

section
variable {n : Nat} {capacity : UInt64} {hcap : capacity ≠ 0}

/-- Steps of one handler outside the broker, one after the other. -/
def handlerExec (apiKey : Option CString) (i : Nat) (running : Bool)
    (sh : MessageBroker.Shared n) :
    List Move → Connection → List Detached → Option (Connection × List Detached × List (Event n))
  | [], ctx, registry => some (ctx, registry, [])
  | move :: moves, ctx, registry =>
      match clientHandler apiKey i running sh registry ctx ctx.handler move with
      | some (.step ctx registry e) =>
          (handlerExec apiKey i running sh moves ctx registry).map fun r =>
            (r.1, r.2.1, e.toList ++ r.2.2)
      | _ => none

/-- The steps of one handler are a part of a run. -/
theorem run_handlerExec {apiKey : Option CString} {i : Nat} (moves : List Move) :
    ∀ {tr tr' : List (Event n)} {s : State n} {ctx : Connection} {registry : List Detached},
      (machine n capacity hcap apiKey).RunIf AllocationsSucceed tr s →
      (∀ move ∈ moves, move ≠ .fail ∧ move ≠ .read .noMemory) →
      handlerExec apiKey i s.running s.broker.shared moves (s.connection i)
        s.detachedSubscriptions = some (ctx, registry, tr') →
      (machine n capacity hcap apiKey).RunIf AllocationsSucceed (tr ++ tr')
        { s.setConnection i ctx with detachedSubscriptions := registry } := by
  induction moves with
  | nil =>
      intro tr tr' s ctx registry hrun _ hexec
      obtain ⟨rfl, rfl, rfl⟩ : s.connection i = ctx ∧ s.detachedSubscriptions = registry ∧
          [] = tr' := by simpa [handlerExec] using hexec
      have hsame : ({ s.setConnection i (s.connection i) with
          detachedSubscriptions := s.detachedSubscriptions } : State n) = s := by
        rw [State.setConnection, Function.update_eq_self]
      rw [hsame, List.append_nil]
      exact hrun
  | cons move moves ih =>
      intro tr tr' s ctx registry hrun hmoves hexec
      rw [handlerExec] at hexec
      split at hexec
      · rename_i ctx₁ registry₁ e hstep
        obtain ⟨⟨ctx₂, registry₂, tr₂⟩, hrest, heq⟩ := Option.map_eq_some_iff.mp hexec
        obtain ⟨rfl, rfl, rfl⟩ : ctx₂ = ctx ∧ registry₂ = registry ∧ e.toList ++ tr₂ = tr' := by
          simpa using heq
        obtain ⟨hfail, hmemory⟩ := hmoves move (List.mem_cons_self ..)
        have hnext : next apiKey s (.handler i move) =
            some ({ s.setConnection i ctx₁ with detachedSubscriptions := registry₁ }, e) := by
          rw [next, hstep]
          rfl
        have hK : AllocationsSucceed s (.handler i move) := by
          cases move with
          | go => trivial
          | fail => exact absurd rfl hfail
          | read input =>
              cases input with
              | noMemory => exact absurd rfl hmemory
              | _ => trivial
        have hrun' := hrun.snoc hK hnext
        have hctx : ({ s.setConnection i ctx₁ with
            detachedSubscriptions := registry₁ } : State n).connection i = ctx₁ :=
          Function.update_self ..
        have hgoOn := ih hrun' (fun m hm => hmoves m (List.mem_cons_of_mem _ hm))
          (by rw [hctx]; exact hrest)
        rw [List.append_assoc] at hgoOn
        have hstate : ({ ({ s.setConnection i ctx₁ with
            detachedSubscriptions := registry₁ } : State n).setConnection i ctx₂ with
            detachedSubscriptions := registry₂ } : State n) =
            { s.setConnection i ctx₂ with detachedSubscriptions := registry₂ } := by
          simp only [State.setConnection, Function.update_idem]
        rw [hstate] at hgoOn
        exact hgoOn
      · cases hexec

end

/-- The bytes of a command line, one read each. -/
def readMoves (line : String) : List Move := (ascii line).map fun b => .read (.bytes [b])

/-- A client authenticates and subscribes to `c`. -/
def subscribeMoves : List Move :=
  [.go] ++ readMoves "AUTH k\n" ++ [.go, .go] ++ readMoves "SUBSCRIBE c\n"

/-- The broker in which the handlers of the first `m` connections have called
`message_broker_subscribe` and have their ids, and nothing else has happened. -/
def manyHandlers (capacity : UInt64) (hcap : capacity ≠ 0) (name : CString) (m : Nat) :
    MessageBroker.State 1 :=
  { MessageBroker.init capacity hcap with
    shared := { (MessageBroker.init capacity hcap : MessageBroker.State 1).shared with
      nextSubscriberId := UInt64.ofNat (m + 1), nextSubscribe := m }
    pc := fun
      | .client c =>
          if c % 3 = 1 ∧ c / 3 < m then
            .subscribe name (UInt64.ofNat (c / 3 + 1)) (.getChannel .lock)
          else .idle
      | .dispatcher _ => .idle }

/-- A connection whose handler is inside `message_broker_subscribe`. -/
def subscribingConnection : Connection := ⟨none, false, false, true, .subscribing, .absent⟩

/-- The server with `m` such connections. -/
def manyConnections (capacity : UInt64) (hcap : capacity ≠ 0) (name : CString) (m : Nat) :
    State 1 where
  broker := manyHandlers capacity hcap name m
  connection := fun i => if i < m then subscribingConnection else noConnection
  nextConnection := m
  detachedSubscriptions := []
  running := true
  main := .serving

section
variable {n : Nat} {capacity : UInt64} {hcap : capacity ≠ 0}

/-- The handler of the next connection calls `message_broker_subscribe`. -/
theorem next_manyHandlers (name : CString) (m : Nat) :
    MessageBroker.next (manyHandlers capacity hcap name m)
      (callAction (.handler m) (.callSubscribe name)) =
      some (manyHandlers capacity hcap name (m + 1),
        some (.subscribeCall (.client (Client.handler m).number) (UInt64.ofNat (m + 1)) name)) := by
  have hpc : Function.update (manyHandlers capacity hcap name m).pc
      (.client (Client.handler m).number)
      (.subscribe name (UInt64.ofNat (m + 1)) (.getChannel .lock)) =
      (manyHandlers capacity hcap name (m + 1)).pc := by
    funext t
    cases t with
    | client c =>
        by_cases hc : c = 3 * m + 1
        · subst hc
          have hdiv : (3 * m + 1) / 3 = m := by omega
          have hmod : (3 * m + 1) % 3 = 1 := by omega
          simp [manyHandlers, Client.number, hdiv, hmod]
        · have hiff : (c % 3 = 1 ∧ c / 3 < m + 1) ↔ (c % 3 = 1 ∧ c / 3 < m) := by omega
          simp only [manyHandlers, Client.number, hiff]
          rw [Function.update_of_ne (by simpa using hc)]
    | dispatcher d => simp [manyHandlers]
  have hidle : (manyHandlers capacity hcap name m).pc (.client (Client.handler m).number) =
      .idle := by
    have hdiv : (3 * m + 1) / 3 = m := by omega
    simp [manyHandlers, Client.number, hdiv]
  simp only [MessageBroker.next, hidle, MessageBroker.threadFunction, MessageBroker.call,
    Option.map_some]
  rw [if_neg (by simp [manyHandlers, MessageBroker.init])]
  refine congrArg some (Prod.ext ?_ rfl)
  show MessageBroker.State.mk _ _ _ _ = MessageBroker.State.mk _ _ _ _
  congr 1
  · show MessageBroker.Shared.mk _ _ _ _ _ _ _ _ _ _ _ _ =
      MessageBroker.Shared.mk _ _ _ _ _ _ _ _ _ _ _ _
    congr 1
    show UInt64.ofNat (m + 1) + 1 = UInt64.ofNat (m + 1 + 1)
    simp

/-- A connection whose handler is about to call `message_broker_subscribe`. -/
def callingConnection : Connection :=
  ⟨none, false, false, true, .callSubscribe (.ofBuffer (ascii "c")), .absent⟩

/-- The handler of a new connection reads the two lines. -/
theorem handlerExec_subscribeMoves (i : Nat) (sh : MessageBroker.Shared 1)
    (registry : List Detached) :
    handlerExec none i true sh subscribeMoves newConnection registry =
      some (callingConnection, registry,
        [.command i (ascii "AUTH k"), .reply i .ok, .command i (ascii "SUBSCRIBE c")]) := rfl

/-- The call of `message_broker_subscribe` by a handler. -/
theorem next_callSubscribe (apiKey : Option CString) {s : State n} {i : Nat} {name : CString}
    {b : MessageBroker.State n} {e : MessageBroker.Event n} (hpc : (s.connection i).handler = .callSubscribe name)
    (hb : MessageBroker.next s.broker (callAction (.handler i) (.callSubscribe name)) =
      some (b, some e)) :
    next apiKey s (.handler i .go) =
      some ({ s with broker := b }.setConnection i { s.connection i with handler := .subscribing },
        some (.broker e)) := by
  rw [callAction] at hb
  rw [next, hpc]
  show (State.call s (.handler i) (.callSubscribe name)).map _ = _
  rw [State.call, hb]
  simp [callEvent, hpc]

/-- Any number of connections can call `message_broker_subscribe` before any of them goes on. -/
theorem run_manyConnections (m : Nat) :
    ∃ tr, (machine 1 capacity hcap none).RunIf AllocationsSucceed tr
      (manyConnections capacity hcap (.ofBuffer (ascii "c")) m) := by
  induction m with
  | zero =>
      refine ⟨[], ?_⟩
      have hinit : manyConnections capacity hcap (.ofBuffer (ascii "c")) 0 =
          init capacity hcap := by
        simp only [manyConnections, manyHandlers, init, MessageBroker.init, Nat.not_lt_zero,
          and_false, if_false]
        congr 2
        funext t
        cases t <;> rfl
      rw [hinit]
      exact .nil
  | succ m ih =>
      obtain ⟨tr, hrun⟩ := ih
      generalize hs : manyConnections capacity hcap (.ofBuffer (ascii "c")) m = s at hrun
      have hrunning : s.running = true := by rw [← hs]; rfl
      have hcount : s.nextConnection = m := by rw [← hs]; rfl
      have hregistry : s.detachedSubscriptions = [] := by rw [← hs]; rfl
      have hbroker : s.broker = manyHandlers capacity hcap (.ofBuffer (ascii "c")) m := by
        rw [← hs]
        rfl
      -- the connection is accepted
      have haccept : next none s .accept =
          some ({ s.setConnection m newConnection with nextConnection := m + 1 },
            some (.accepted m)) := by
        rw [next, if_pos hrunning, hcount]
      have hrun₁ := hrun.snoc (show AllocationsSucceed s .accept from trivial) haccept
      -- its client sends two lines
      have hctx₁ : (s.setConnection m newConnection).connection m = newConnection :=
        Function.update_self ..
      have hexec := handlerExec_subscribeMoves m s.broker.shared s.detachedSubscriptions
      rw [← hrunning, ← hctx₁] at hexec
      have hrun₂ := run_handlerExec subscribeMoves hrun₁ (by decide) hexec
      -- and its handler calls the broker
      have hpc : (((s.setConnection m newConnection).setConnection m
          callingConnection).connection m).handler = .callSubscribe (.ofBuffer (ascii "c")) := by
        simp [State.setConnection, callingConnection]
      have hb := @next_manyHandlers capacity hcap (.ofBuffer (ascii "c")) m
      rw [← hbroker] at hb
      have hcall := next_callSubscribe none
        (s := { ({ s.setConnection m newConnection with
          nextConnection := m + 1 } : State 1).setConnection m callingConnection with
          detachedSubscriptions := s.detachedSubscriptions }) hpc hb
      refine ⟨_, Eq.subst (motive := (machine 1 capacity hcap none).RunIf AllocationsSucceed _) ?_
        (hrun₂.snoc (show AllocationsSucceed _ (.handler m .go) from trivial) hcall)⟩
      rw [manyConnections, hregistry, State.setConnection]
      congr 1
      · funext i
        simp only [State.setConnection, Function.update_idem]
        by_cases hi : i = m
        · subst hi
          simp [callingConnection, subscribingConnection]
        · have hlt : i < m + 1 ↔ i < m := by omega
          rw [Function.update_of_ne hi, ← hs, manyConnections]
          simp only [hlt]
      · rw [State.setConnection, ← hs]
        rfl

end

/-- Steps of the handler of the connection `i`. -/
def handlerSteps (i m : Nat) : List (Action 1) := List.replicate m (.handler i .go)

/-- The handler of the connection `i` reads a line. -/
def handlerLine (i : Nat) (line : String) : List (Action 1) :=
  (readMoves line).map (.handler i)

/-- The handler of the connection `i` comes back from `message_broker_subscribe` in `m` steps and
replies, and then its client detaches. -/
def subscribeAndDetach (i m : Nat) : List (Action 1) :=
  brokerGo (.client (Client.handler i).number) m ++ handlerSteps i 5 ++ handlerLine i "DETACH\n" ++
    handlerSteps i 1 ++ [.receiver i .go] ++ handlerSteps i 3

/-- After 2^64 subscribes the counter starts again: the connections 0 and 2^64 have one id, and
both detach. -/
theorem registry_ids_repeat :
    ∃ tr s, (machine 1 4 (by decide) none).RunIf AllocationsSucceed tr s ∧
      ¬ (s.detachedSubscriptions.map Prod.fst).Nodup := by
  obtain ⟨tr, hrun⟩ := @run_manyConnections 4 (by decide) (2 ^ 64 + 1)
  obtain ⟨tr', s, hrun', hp⟩ := hrun.exec_any
    (subscribeAndDetach 0 10 ++ subscribeAndDetach (2 ^ 64) 8)
    (fun _ s => !decide (s.detachedSubscriptions.map Prod.fst).Nodup) (by decide +kernel)
  exact ⟨tr ++ tr', s, hrun', by simpa using hp⟩

/-- The first client subscribes and detaches, the second one attaches and leaves, the first one
leaves, and the server is freed. -/
def handOver : List (Action 1) :=
  [.accept] ++ handlerSteps 0 1 ++ handlerLine 0 "AUTH k\n" ++ handlerSteps 0 2 ++
    handlerLine 0 "SUBSCRIBE c\n" ++ handlerSteps 0 1 ++ subscribeAndDetach 0 10 ++
    handlerSteps 0 3 ++
    [.accept] ++ handlerSteps 1 1 ++ handlerLine 1 "AUTH k\n" ++ handlerSteps 1 2 ++
    handlerLine 1 "ATTACH 1\n" ++ handlerSteps 1 4 ++ brokerGo (.client 4) 2 ++ handlerSteps 1 2 ++
    handlerLine 1 "QUIT\n" ++ handlerSteps 1 2 ++ [.receiver 1 .go] ++ handlerSteps 1 2 ++
    brokerGo (.client 4) 20 ++ handlerSteps 1 1 ++ brokerGo (.client 4) 1 ++
    handlerLine 0 "QUIT\n" ++ handlerSteps 0 2 ++ [.free, .free]

/-- At the end of such a run everything has been freed. -/
theorem network_subscriptions_owned_handOver :
    ∃ tr s, (machine 1 4 (by decide) none).RunIf AllocationsSucceed tr s ∧
      s.broker.shared.nextSubscribe < 2 ^ 64 ∧ s.main = .freed ∧ NetworkOwnership tr s := by
  obtain ⟨tr, s, hrun, hp⟩ := Machine.runIf_of_exec (M := machine 1 4 (by decide) none)
    (K := AllocationsSucceed) handOver
    (fun _ s => decide (s.broker.shared.nextSubscribe < 2 ^ 64 ∧ s.main = .freed))
    (by decide +kernel)
  obtain ⟨hbound, hmain⟩ := of_decide_eq_true hp
  exact ⟨tr, s, hrun, hbound, hmain, network_subscriptions_owned hrun hbound⟩

end Miez.Proofs.NetworkServer
