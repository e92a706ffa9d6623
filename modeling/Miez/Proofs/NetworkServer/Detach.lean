import Miez.Proofs.MessageBroker.Pointers
import Miez.Proofs.NetworkServer.Transfers

/-!
# `Miez.Proofs.NetworkServer.Detach`: the reads of `_handle_detach`

`_handle_detach` reads the id of its subscription twice: in `_add_detached`, before the node is
linked, and once more for its reply, after the node is linked. The first read is of a subscription
that the connection owns (`detach_hands_over`). At the second one the node has been in the registry
for a while, and another connection can have taken the subscription and freed it
(`detach_reads_freed_subscription`).

`NotFreedBetween` is the condition under which the second read does no harm.
-/

set_option autoImplicit false

namespace Miez.Proofs.NetworkServer

open Miez.Lib
open Miez.NetworkServer
open Miez.ThreadPool (Tid)
open Miez.Proofs

section
variable {n : Nat} {capacity : UInt64} {hcap : capacity ≠ 0} {apiKey : Option CString}

/-! ### Reads and links -/

/-- The connection whose handler takes a step. -/
def handlerOf : Action n → Option Nat
  | .handler i _ => some i
  | _ => none

/-- The step reads the subscription `k` for the `DETACH` of the connection `i`. -/
def DetachReads (s : State n) (a : Action n) (i k : Nat) : Prop :=
  handlerOf a = some i ∧ (s.connection i).subscription = some k ∧
    ((s.connection i).handler = .addDetached ∨ (s.connection i).handler = .detachGetId)

instance (s : State n) (a : Action n) (i k : Nat) : Decidable (DetachReads s a i k) := by
  unfold DetachReads
  infer_instance

/-- The connection `i` has linked the subscription `k` and has not taken it back since. -/
def HasLinked (tr : List (Event n)) (i k : Nat) : Prop :=
  ∃ pre id post, tr = pre ++ .linked i id k :: post ∧ ∀ id', .attached i id' k ∉ post

/-- A link lasts until the connection takes the subscription back. -/
theorem hasLinked_append {tr : List (Event n)} {e : Option (Event n)} {i k : Nat} :
    HasLinked (tr ++ e.toList) i k ↔
      (HasLinked tr i k ∧ ∀ id, e ≠ some (.attached i id k)) ∨ ∃ id, e = some (.linked i id k) := by
  constructor
  · rintro ⟨pre, id, post, htr, hpost⟩
    rcases append_toList_eq_append_cons htr with ⟨post', hold, rfl⟩ | ⟨he, -, -⟩
    · refine Or.inl ⟨⟨pre, id, post', hold, ?_⟩, ?_⟩
      · intro id' hmem
        exact hpost id' (List.mem_append_left _ hmem)
      · intro id' he
        exact hpost id' (List.mem_append_right _ (by rw [he]; exact List.mem_singleton_self _))
    · exact Or.inr ⟨id, he⟩
  · rintro (⟨⟨pre, id, post, rfl, hpost⟩, he⟩ | ⟨id, rfl⟩)
    · refine ⟨pre, id, post ++ e.toList, by simp, ?_⟩
      intro id' hmem
      rcases List.mem_append.mp hmem with hmem | hmem
      · exact hpost id' hmem
      · exact he id' (Option.mem_toList.mp hmem)
    · refine ⟨tr, id, [], rfl, ?_⟩
      intro id' hmem
      cases hmem

/-- A handler comes to the second read through the link. -/
theorem detachGetId_of_handlerStep {i : Nat} {running : Bool} {sh : MessageBroker.Shared n}
    {registry registry' : List Detached} {ctx ctx' : Connection} {move : Move}
    {e : Option (Event n)}
    (h : HandlerStep apiKey i running sh registry ctx move (.step ctx' registry' e))
    (hpc : ctx'.handler = .detachGetId) :
    ∃ id k, ctx.handler = .linkDetached id ∧ ctx.subscription = some k ∧
      ctx'.subscription = some k ∧ e = some (.linked i id k) := by
  cases h with
  | command => exact absurd hpc (handleCommand_ne rfl)
  | @reply r last _ => cases last <;> cases hpc
  | @createReceiver attach _ => cases attach <;> cases hpc
  | @createFailed attach _ => cases attach <;> cases hpc
  | getId _ =>
      rcases withId_cases sh ctx fun id => .reply (.okNumber id.toNat) false with
        ⟨_, _, h⟩ | ⟨_, h⟩ <;> rw [h] at hpc <;> cases hpc
  | addDetached _ =>
      rcases withId_cases sh ctx .linkDetached with ⟨_, _, h⟩ | ⟨_, h⟩ <;>
        rw [h] at hpc <;> cases hpc
  | addFailed _ =>
      rcases withId_cases sh ctx fun _ => .reply (.err .failedToDetach) false with
        ⟨_, _, h⟩ | ⟨_, h⟩ <;> rw [h] at hpc <;> cases hpc
  | @link id k hlink hk => exact ⟨id, k, hlink, hk, hk, rfl⟩
  | leave _ =>
      simp only at hpc
      split_ifs at hpc
  | _ => cases hpc

/-- A connection is at the second read because it was there before, or because it has linked its
subscription in this step. -/
theorem detachGetId_of_netStep {s s' : State n} {a : Action n} {e : Option (Event n)}
    (h : NetStep apiKey s a s' e) {i k : Nat} (hpc : (s'.connection i).handler = .detachGetId)
    (hk : (s'.connection i).subscription = some k) :
    ((s.connection i).handler = .detachGetId ∧ (s.connection i).subscription = some k ∧
      ∀ id, e ≠ some (.attached i id k)) ∨
    ∃ id, (s.connection i).handler = .linkDetached id ∧ (s.connection i).subscription = some k ∧
      e = some (.linked i id k) ∧ s'.broker = s.broker := by
  have hbroker : ∀ {e' : Option (MessageBroker.Event n)} {ctx : Connection} (id : UInt64),
      e'.map (callEvent i ctx) ≠ some (.attached i id k) := by
    intro e' ctx id he
    obtain ⟨y, -, hy⟩ := Option.map_eq_some_iff.mp he
    unfold callEvent at hy
    split at hy <;> cases hy
  have hinside : ∀ {e' : Option (MessageBroker.Event n)} (id : UInt64),
      e'.map Event.broker ≠ some (.attached i id k) := by
    intro e' id he
    obtain ⟨y, -, hy⟩ := Option.map_eq_some_iff.mp he
    cases hy
  cases h.connectionStep i with
  | same hctx he =>
      rw [hctx] at hpc hk
      exact Or.inl ⟨hpc, hk, fun id hid => he _ hid rfl⟩
  | accept _ hctx _ =>
      rw [hctx] at hpc
      cases hpc
  | handler hstep hsame =>
      obtain ⟨id, k', hlink, hk', hnew, he⟩ := detachGetId_of_handlerStep hstep hpc
      obtain rfl : k = k' := Option.some.inj (hk.symm.trans hnew)
      exact Or.inr ⟨id, hlink, hk', he, hsame⟩
  | handlerCall hstep _ =>
      generalize s'.connection i = ctx' at hstep hpc
      cases hstep <;> cases hpc
  | receiver hstep _ =>
      generalize s'.connection i = ctx' at hstep hpc hk
      generalize s'.detachedSubscriptions = registry' at hstep
      have he : ∀ id, e ≠ some (.attached i id k) := by
        rintro id rfl
        cases hstep
      cases hstep <;> exact Or.inl ⟨hpc, hk, he⟩
  | receiverCall hstep _ =>
      generalize s'.connection i = ctx' at hstep hpc hk
      cases hstep
      exact Or.inl ⟨hpc, hk, hbroker⟩
  | @handlerReturn b e hctx _ _ _ _ =>
      have hsame : handlerReturn (s.connection i) e = s.connection i := by
        rw [hctx] at hpc
        unfold handlerReturn at hpc ⊢
        split at hpc <;> first | cases hpc | rfl
      rw [hctx, hsame] at hpc hk
      exact Or.inl ⟨hpc, hk, hinside⟩
  | @receiverReturn b e hctx _ _ _ _ =>
      obtain ⟨hhandler, hsub⟩ := receiverReturn_fields (s.connection i) e
      rw [hctx] at hpc hk
      exact Or.inl ⟨hhandler.symm.trans hpc, hsub.symm.trans hk, hinside⟩

/-! ### The first read -/

/-- What the links of a run say about the connections. -/
structure LinkInv (tr : List (Event n)) (s : State n) : Prop where
  linked : ∀ i k, (s.connection i).handler = .detachGetId →
    (s.connection i).subscription = some k → HasLinked tr i k
  known : ∀ i id k, .linked i id k ∈ tr → k < s.broker.shared.nextSubscription
  gone : ∀ i k, HasLinked tr i k → holders s i ≠ some k

/-- The number of subscriptions does not fall. -/
theorem OwnerStep.nextSubscription_le {s s' : State n} {e : Option (Event n)}
    (h : OwnerStep s s' e) :
    s.broker.shared.nextSubscription ≤ s'.broker.shared.nextSubscription := by
  cases h with
  | same _ _ hsame _ => exact hsame.next.ge
  | subscribed i t id name x _ _ _ hshared _ =>
      rw [hshared]
      exact Nat.le_succ _
  | attached _ _ _ _ _ _ _ _ _ hbroker _ | linked _ _ _ _ _ _ _ hbroker _ => rw [hbroker]
  | freed _ _ _ _ _ _ hshared _ | freedNode _ _ _ _ _ hshared _ =>
      rw [hshared]
      exact le_refl _

/-- `LinkInv` holds in every state of a run. -/
theorem linkInv_of_run {K : State n → Action n → Prop} {tr : List (Event n)} {s : State n}
    (h : (machine n capacity hcap apiKey).RunIf K tr s) : LinkInv tr s := by
  refine h.induction (I := LinkInv) ?_ ?_
  · constructor
    · intro i k hpc
      cases hpc
    · intro i id k hmem
      cases hmem
    · rintro i k ⟨pre, id, post, htr, -⟩
      simp at htr
  · intro tr s a s' e hrun hinv hK hnext
    have hstep := next_netStep hnext
    have howner := ownerStep_of_run hrun hnext
    have hsingle := (ownershipInv_of_run hrun).single
    refine ⟨?_, ?_, ?_⟩
    · intro i k hpc hk
      rw [hasLinked_append]
      rcases detachGetId_of_netStep hstep hpc hk with ⟨hpc', hk', he⟩ | ⟨id, -, -, he, -⟩
      · exact Or.inl ⟨hinv.linked i k hpc' hk', he⟩
      · exact Or.inr ⟨id, he⟩
    · intro i id k hmem
      refine lt_of_lt_of_le ?_ howner.nextSubscription_le
      rcases List.mem_append.mp hmem with hmem | hmem
      · exact hinv.known i id k hmem
      · have he : e = some (.linked i id k) := Option.mem_toList.mp hmem
        cases howner with
        | same _ _ _ hkeep =>
            have hfalse := hkeep _ he
            cases hfalse
        | linked i' id' k' _ hk' _ _ _ he' =>
            rw [he] at he'
            cases he'
            exact (hsingle.held_live i k hk').1
        | subscribed _ _ _ _ _ _ _ _ _ he' | attached _ _ _ _ _ _ _ _ _ _ he'
        | freed _ _ _ _ _ _ _ he' | freedNode _ _ _ _ _ _ he' =>
            rw [he] at he'
            cases he'
    · intro i k hlinked hheld
      rw [hasLinked_append] at hlinked
      -- A connection that owned nothing of the kind before the step does not own it afterwards.
      have hold : holders s' i = holders s i → (∀ id, e ≠ some (.linked i id k)) → False := by
        intro hsame he
        rcases hlinked with ⟨hlinked, -⟩ | ⟨id, hid⟩
        · exact hinv.gone i k hlinked (hsame.symm.trans hheld)
        · exact he id hid
      cases howner with
      | same hsame _ _ hkeep =>
          refine hold (congrFun hsame i) fun id he => ?_
          have hfalse := hkeep _ he
          cases hfalse
      | subscribed i' t id name x _ hupdate _ _ he =>
          subst he
          by_cases hi : i = i'
          · subst hi
            rw [hupdate, Function.update_self] at hheld
            obtain rfl := Option.some.inj hheld
            rcases hlinked with ⟨⟨pre, id, post, rfl, -⟩, -⟩ | ⟨id, hid⟩
            · exact lt_irrefl _ (hinv.known i id _ (by simp))
            · cases hid
          · refine hold ?_ (fun id he => by cases he)
            rw [hupdate, Function.update_of_ne hi]
      | attached i' id k' pre post _ hupdate _ _ _ he =>
          subst he
          by_cases hi : i = i'
          · subst hi
            rw [hupdate, Function.update_self] at hheld
            obtain rfl := Option.some.inj hheld
            rcases hlinked with ⟨-, hnot⟩ | ⟨id, hid⟩
            · exact hnot id rfl
            · cases hid
          · refine hold ?_ (fun id he => by cases he)
            rw [hupdate, Function.update_of_ne hi]
      | linked i' id k' _ _ hupdate _ _ he =>
          subst he
          by_cases hi : i = i'
          · subst hi
            rw [hupdate, Function.update_self] at hheld
            cases hheld
          · refine hold ?_ (fun id he => ?_)
            · rw [hupdate, Function.update_of_ne hi]
            · cases he
              exact hi rfl
      | freed i' t k' _ hupdate _ _ he =>
          subst he
          by_cases hi : i = i'
          · subst hi
            rw [hupdate, Function.update_self] at hheld
            cases hheld
          · refine hold ?_ (fun id he => by cases he)
            rw [hupdate, Function.update_of_ne hi]
      | freedNode t id k' hsame _ _ he =>
          subst he
          exact hold (congrFun hsame i) fun id he => by cases he

/-! ### The second read -/

/-- No subscription is freed between its link and the next step of the handler that has linked
it. -/
def NotFreedBetween (s : State n) (a : Action n) : Prop :=
  ∀ t i k, a = .broker (.thread t .go) → s.broker.pc t = .free k →
    (s.connection i).handler = .detachGetId → (s.connection i).subscription ≠ some k

/-- A step of the server that frees a subscription is the last step of `subscription_free`. -/
theorem NetStep.freed {s s' : State n} {a : Action n} {t : Tid n} {k : Nat}
    (h : NetStep apiKey s a s' (some (.broker (.freed t k)))) :
    a = .broker (.thread t .go) ∧ s.broker.pc t = .free k := by
  have hcall : ∀ {client : Client} {call : MessageBroker.Move n} {b : MessageBroker.State n}
      {e : MessageBroker.Event n}, isCall call = true →
      MessageBroker.next s.broker (callAction client call) = some (b, some e) → e ≠ .freed t k := by
    rintro client call b e hcall hb rfl
    obtain ⟨ha, -⟩ := MessageBroker.next_freed hb
    obtain ⟨-, rfl⟩ : _ ∧ call = .go := by simpa using ha
    cases hcall
  generalize he : some (Event.broker (MessageBroker.Event.freed t k)) = e at h
  cases h with
  | handler h => cases clientHandler_step rfl h <;> cases he
  | @handlerCall i move ctx call b e h hb =>
      obtain ⟨y, rfl, hy⟩ := Option.map_eq_some_iff.mp he.symm
      have hfreed : y = .freed t k := by
        unfold callEvent at hy
        split at hy <;> cases hy
        rfl
      exact absurd hfreed (hcall (clientHandler_step rfl h).handlerCall_eq.1 hb)
  | receiver h => cases subscriberReceiverThread_step h <;> cases he
  | @receiverCall i move ctx call b e h hb =>
      obtain ⟨y, rfl, hy⟩ := Option.map_eq_some_iff.mp he.symm
      have hfreed : y = .freed t k := by
        unfold callEvent at hy
        split at hy <;> cases hy
        rfl
      exact absurd hfreed (hcall ((subscriberReceiverThread_step h).calls.2.2 _ _ rfl).1 hb)
  | freeUnsubscribe _ _ hb | freeFree _ _ hb | publish hb =>
      obtain ⟨y, rfl, hy⟩ := Option.map_eq_some_iff.mp he.symm
      cases hy
      exact absurd rfl (hcall rfl hb)
  | inside _ hb _ | back _ hb _ _ =>
      obtain ⟨y, rfl, hy⟩ := Option.map_eq_some_iff.mp he.symm
      cases hy
      obtain ⟨rfl, hpc⟩ := MessageBroker.next_freed hb
      exact ⟨rfl, hpc⟩
  | accept | stop | freeStart | freeEnd => cases he

/-- A subscription that a handler reads after the link is live, when no subscription is freed in
between. -/
theorem live_of_detachGetId {tr : List (Event n)} {s : State n}
    (h : (machine n capacity hcap apiKey).RunIf NotFreedBetween tr s) {i k : Nat}
    (hpc : (s.connection i).handler = .detachGetId)
    (hk : (s.connection i).subscription = some k) : Live s.broker.shared k := by
  refine h.induction (I := fun _ s => ∀ i k, (s.connection i).handler = .detachGetId →
    (s.connection i).subscription = some k → Live s.broker.shared k) ?_ ?_ i k hpc hk
  · intro i k hpc
    cases hpc
  · intro tr s a s' e hrun hinv hK hnext i k hpc hk
    have hstep := next_netStep hnext
    have hsingle := (ownershipInv_of_run hrun).single
    rcases detachGetId_of_netStep hstep hpc hk with ⟨hpc', hk', -⟩ | ⟨id, hlink, hk', -, hbroker⟩
    · have hlive := hinv i k hpc' hk'
      have hfree : ∀ t k', e = some (.broker (.freed t k')) → k ≠ k' := by
        rintro t k' rfl rfl
        obtain ⟨ha, hfree⟩ := hstep.freed
        exact hK t i k ha hfree hpc' hk'
      cases ownerStep_of_run hrun hnext with
      | same _ _ hsame _ => exact (hsame.live_iff k).mpr hlive
      | subscribed _ _ id name x _ _ _ hshared _ =>
          rw [hshared]
          exact (live_newSubscription _ id name x k).mpr (Or.inl hlive)
      | attached _ _ _ _ _ _ _ _ _ hbroker _ | linked _ _ _ _ _ _ _ hbroker _ =>
          rw [hbroker]
          exact hlive
      | freed _ t k' _ _ _ hshared he | freedNode t _ k' _ _ hshared he =>
          rw [hshared]
          exact (live_free _ k' k).mpr ⟨hlive, hfree t k' he⟩
    · rw [hbroker]
      refine hsingle.held_live i k ?_
      rw [holders, heldBy_eq (by simp [hlink]) (by simp [hlink]), hk']

/-- `_handle_detach` reads a subscription that it has not let go and that is live exactly when the
read is the one before the link. All its reads are of live subscriptions when no subscription is
freed between its link and the handler's next step. -/
theorem detach_hands_over {tr : List (Event n)} {s : State n}
    (h : (machine n capacity hcap apiKey).Run tr s) :
    (∀ a i k, DetachReads s a i k →
      ((¬ HasLinked tr i k ∧ Live s.broker.shared k) ↔
        (s.connection i).handler ≠ .detachGetId)) ∧
    ((machine n capacity hcap apiKey).RunIf NotFreedBetween tr s →
      ∀ a i k, DetachReads s a i k → Live s.broker.shared k) := by
  have hlink := linkInv_of_run h
  have hsingle := (ownershipInv_of_run h).single
  have hfirst : ∀ {i k}, (s.connection i).subscription = some k →
      (s.connection i).handler = .addDetached → holders s i = some k := by
    intro i k hk hpc
    rw [holders, heldBy_eq (by simp [hpc]) (by simp [hpc]), hk]
  constructor
  · rintro a i k ⟨-, hk, hpc⟩
    constructor
    · rintro ⟨hnot, -⟩ hpc'
      exact hnot (hlink.linked i k hpc' hk)
    · intro hpc'
      have hheld := hfirst hk (hpc.resolve_right hpc')
      exact ⟨fun hlinked => hlink.gone i k hlinked hheld, hsingle.held_live i k hheld⟩
  · rintro hrun a i k ⟨-, hk, hpc | hpc⟩
    · exact hsingle.held_live i k (hfirst hk hpc)
    · exact live_of_detachGetId hrun hpc hk

end

/-! ### Runs on fixed inputs -/

/-- The first client subscribes and sends `DETACH`, and its receiver thread has been joined. -/
def detaching : List (Action 1) :=
  [.accept] ++ handlerSteps 0 1 ++ handlerLine 0 "AUTH k\n" ++ handlerSteps 0 2 ++
    handlerLine 0 "SUBSCRIBE c\n" ++ handlerSteps 0 1 ++ brokerGo (.client 1) 10 ++
    handlerSteps 0 5 ++ handlerLine 0 "DETACH\n" ++ handlerSteps 0 1 ++ [.receiver 0 .go] ++
    handlerSteps 0 1

/-- The second client attaches to the subscription with the id 1 and leaves. -/
def takeAndLeave : List (Action 1) :=
  [.accept] ++ handlerSteps 1 1 ++ handlerLine 1 "AUTH k\n" ++ handlerSteps 1 2 ++
    handlerLine 1 "ATTACH 1\n" ++ handlerSteps 1 4 ++ brokerGo (.client 4) 2 ++ handlerSteps 1 2 ++
    handlerLine 1 "QUIT\n" ++ handlerSteps 1 2 ++ [.receiver 1 .go] ++ handlerSteps 1 2 ++
    brokerGo (.client 4) 20 ++ handlerSteps 1 1 ++ brokerGo (.client 4) 1

/-- The read of `_add_detached` before the link. -/
theorem detach_hands_over_first_read :
    ∃ tr s, (machine 1 4 (by decide) none).Run tr s ∧ DetachReads s (.handler 0 .go) 0 0 ∧
      (s.connection 0).handler = .addDetached ∧ ¬ HasLinked tr 0 0 ∧ Live s.broker.shared 0 := by
  obtain ⟨tr, s, hrun, hp⟩ := Machine.run_of_exec (M := machine 1 4 (by decide) none) detaching
    (fun _ s => decide (DetachReads s (.handler 0 .go) 0 0 ∧
      (s.connection 0).handler = .addDetached)) (by decide +kernel)
  obtain ⟨hread, hpc⟩ := of_decide_eq_true hp
  have howned := ((detach_hands_over hrun).1 _ 0 0 hread).mpr (by rw [hpc]; simp)
  exact ⟨tr, s, hrun, hread, hpc, howned⟩

/-- After the link another client takes the subscription and frees it. The next step of
`_handle_detach` reads it all the same. -/
theorem detach_reads_freed_subscription :
    ∃ tr s, (machine 1 4 (by decide) none).Run tr s ∧ DetachReads s (.handler 0 .go) 0 0 ∧
      .linked 0 1 0 ∈ tr ∧ .broker (.freed (.client 4) 0) ∈ tr ∧ ¬ Live s.broker.shared 0 := by
  obtain ⟨tr, s, hrun, hp⟩ := Machine.run_of_exec (M := machine 1 4 (by decide) none)
    (detaching ++ handlerSteps 0 2 ++ takeAndLeave)
    (fun tr s => decide (DetachReads s (.handler 0 .go) 0 0 ∧ .linked 0 1 0 ∈ tr ∧
      .broker (.freed (.client 4) 0) ∈ tr ∧ (s.broker.shared.subscription 0).released = true))
    (by decide +kernel)
  obtain ⟨hread, hlinked, hfreed, hreleased⟩ := of_decide_eq_true hp
  refine ⟨tr, s, hrun, hread, hlinked, hfreed, fun hlive => ?_⟩
  rw [hlive.2] at hreleased
  cases hreleased

end Miez.Proofs.NetworkServer
