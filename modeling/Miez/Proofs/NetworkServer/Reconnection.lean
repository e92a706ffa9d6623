import Miez.Proofs.NetworkServer.Inboxes

/-!
# `Miez.Proofs.NetworkServer.Reconnection`: nothing is lost between DETACH and ATTACH

The frames of a subscription are written by the receiver threads of the connections that own it one
after the other. A receiver takes one message out of the inbox at a time and writes it before it
looks at `_active` again, and `_handle_detach` joins it before the subscription goes into the
registry. So what the receivers have taken out of the inbox is what they have written, up to one
message in the hand of the receiver at work (`FramesInv`).

`frames_append_inbox`: when no message is in a hand, the frames of a subscription followed by the
messages in its inbox are the messages that were put into the inbox.
-/

set_option autoImplicit false

namespace Miez.Proofs.NetworkServer

open Miez.Lib
open Miez.NetworkServer
open Miez.ThreadPool (Tid)
open Miez.MessageBroker (Message)
open Miez.Proofs
open Miez.Proofs.MessageBroker (Owned puts handedOut gotOf)

section
variable {n : Nat}

/-- The message of a frame that is written for the subscription `k`. -/
def frameFor (k : Nat) : Event n → Option Message
  | .frame _ k' msg => if k' = k then some msg else none
  | _ => none

/-- The messages of the frames written for the subscription `k` on all its connections, in order. -/
def framesOf (tr : List (Event n)) (k : Nat) : List Message := tr.filterMap (frameFor k)

/-- The message that the receiver of a connection has taken out of an inbox and not written, with
the subscription of that inbox. -/
def carried (ctx : Connection) : Option (Nat × Message) :=
  ctx.subscription.bind fun k => (inHand ctx.receiver).map fun msg => (k, msg)

/-- The `malloc` and the `SSL_write` of a frame do not fail. -/
def ReceiversSucceed (_ : State n) : Action n → Prop
  | .receiver _ .fail => False
  | _ => True

instance (s : State n) (a : Action n) : Decidable (ReceiversSucceed s a) := by
  unfold ReceiversSucceed
  induction a using NetworkServer.Action.casesOn with
  | receiver i move => induction move using NetworkServer.Move.casesOn <;> infer_instance
  | _ => infer_instance

/-! ### What a connection carries -/

/-- A connection carries a message of the subscription it points to. -/
theorem carried_eq_some {ctx : Connection} {k : Nat} {msg : Message} :
    carried ctx = some (k, msg) ↔ ctx.subscription = some k ∧ inHand ctx.receiver = some msg := by
  unfold carried
  cases ctx.subscription <;> cases inHand ctx.receiver <;> simp

/-- A receiver with empty hands carries nothing. -/
theorem carried_eq_none {ctx : Connection} (h : inHand ctx.receiver = none) :
    carried ctx = none := by
  rw [carried, h]
  cases ctx.subscription <;> rfl

/-- Only the pointer and the receiver of a connection tell what it carries. -/
theorem carried_congr {ctx ctx' : Connection} (hsub : ctx'.subscription = ctx.subscription)
    (hreceiver : ctx'.receiver = ctx.receiver) : carried ctx' = carried ctx := by
  rw [carried, carried, hsub, hreceiver]

/-- A connection that carries a message has a receiver. -/
theorem receiver_of_carried {ctx : Connection} {k : Nat} {msg : Message}
    (h : carried ctx = some (k, msg)) : ctx.receiver ≠ .absent := by
  intro habsent
  rw [carried_eq_none (by rw [habsent]; rfl)] at h
  cases h

/-- The return of a handler from the broker changes the pointer of its connection only at the end
of a subscribe or of a free. -/
theorem handlerReturn_subscription (ctx : Connection) (e : Option (MessageBroker.Event n)) :
    (handlerReturn ctx e).subscription = ctx.subscription ∨ ctx.handler = .subscribing ∨
      ctx.handler = .freeing := by
  unfold handlerReturn
  split
  · exact Or.inr (Or.inl ‹_›)
  · exact Or.inl rfl
  · exact Or.inl rfl
  · exact Or.inl rfl
  · exact Or.inl rfl
  · exact Or.inl rfl
  · exact Or.inr (Or.inr ‹_›)
  · exact Or.inl rfl

section
variable {capacity : UInt64} {hcap : capacity ≠ 0} {apiKey : Option CString}

/-- A frame is written by the receiver that has the message in its hand. -/
theorem carried_of_frame {s s' : State n} {a : Action n} {e : Option (Event n)} {i k : Nat}
    {msg : Message} (h : NetStep apiKey s a s' e) (he : e = some (.frame i k msg)) :
    a = .receiver i .go ∧ (s.connection i).subscription = some k ∧
      (s.connection i).receiver = .write msg ∧ s'.connection = Function.update s.connection i
        { s.connection i with receiver := .testActive } := by
  cases h with
  | handler h =>
      subst he
      cases clientHandler_step rfl h
  | @handlerCall j move ctx call b e h hb =>
      cases e with
      | none => cases he
      | some e =>
          have hx := Option.some.inj he
          unfold callEvent at hx
          split at hx <;> cases hx
  | receiver h =>
      subst he
      cases subscriberReceiverThread_step h with
      | write hpc hk => exact ⟨rfl, hk, hpc, rfl⟩
  | @receiverCall j move ctx call b e h hb =>
      cases e with
      | none => cases he
      | some e =>
          have hx := Option.some.inj he
          unfold callEvent at hx
          split at hx <;> cases hx
  | @freeUnsubscribe _ _ _ e | @freeFree _ _ _ e | @publish _ _ _ _ e | @inside _ _ e
  | @back _ _ _ e => cases e <;> cases he
  | accept | stop | freeStart | freeEnd => cases he

/-- A step that writes no frame, loses none and hands out no message leaves what a connection
carries. -/
theorem carried_of_connectionStep {s s' : State n} {i : Nat} {a : Action n}
    {e : Option (Event n)} (h : ConnectionStep apiKey s s' i a e) (hK : ReceiversSucceed s a)
    (hconn : ConnectionInv (s.connection i))
    (hnew : s.nextConnection = i → s.connection i = noConnection)
    (hframe : ∀ k msg, e ≠ some (.frame i k msg))
    (hgot : ∀ t k x msg, e.bind brokerEvent ≠ some (.got t k x (some msg))) :
    carried (s'.connection i) = carried (s.connection i) := by
  unfold ConnectionInv at hconn
  cases h with
  | same hctx _ => rw [hctx]
  | accept hi hctx _ =>
      rw [hctx, hnew hi.symm]
      rfl
  | handler hstep _ =>
      generalize s'.connection i = ctx' at hstep ⊢
      generalize s'.detachedSubscriptions = registry' at hstep
      -- A handler changes the pointer, and starts a receiver, where there is none.
      have hnone : (s.connection i).receiver = .absent → inHand ctx'.receiver = none →
          carried ctx' = carried (s.connection i) := by
        intro habsent hhand
        rw [carried_eq_none hhand, carried_eq_none (by rw [habsent]; rfl)]
      cases hstep with
      | command => exact carried_congr (handleCommand_fields ..).1 (handleCommand_fields ..).2.2.2
      | createReceiver hpc =>
          rw [hpc] at hconn
          exact hnone hconn.2 rfl
      | attach hpc _ =>
          rw [hpc] at hconn
          exact hnone hconn.2 (by show inHand (s.connection i).receiver = none; rw [hconn.2]; rfl)
      | detach hpc _ =>
          rw [hpc] at hconn
          exact hnone hconn.2 (by show inHand (s.connection i).receiver = none; rw [hconn.2]; rfl)
      | joinDetach _ hexit | joinLeave _ hexit =>
          rw [carried_eq_none (by rfl), carried_eq_none (by rw [hexit]; rfl)]
      | _ => exact carried_congr rfl rfl
  | handlerCall hstep _ =>
      generalize s'.connection i = ctx' at hstep ⊢
      cases hstep <;> exact carried_congr rfl rfl
  | receiver hstep _ =>
      generalize s'.connection i = ctx' at hstep ⊢
      generalize s'.detachedSubscriptions = registry' at hstep
      cases hstep with
      | goOn hpc _ | exit hpc _ | sleep hpc =>
          rw [carried_eq_none (by rfl), carried_eq_none (by rw [hpc]; rfl)]
      | malloc hpc =>
          unfold carried
          rw [hpc]
          rfl
      | mallocFailed _ | writeFailed _ => exact hK.elim
      | write _ _ => exact absurd rfl (hframe _ _)
  | receiverCall hstep _ =>
      generalize s'.connection i = ctx' at hstep ⊢
      cases hstep with
      | callReceive hpc _ => rw [carried_eq_none (by rfl), carried_eq_none (by rw [hpc]; rfl)]
  | @handlerReturn b e hctx _ _ _ _ =>
      rw [hctx]
      rcases handlerReturn_subscription (s.connection i) e with hsub | hpc | hpc
      · exact carried_congr hsub (handlerReturn_receiver ..)
      · rw [hpc] at hconn
        rw [carried_eq_none (by rw [handlerReturn_receiver, hconn.2]; rfl),
          carried_eq_none (by rw [hconn.2]; rfl)]
      · rw [hpc] at hconn
        rw [carried_eq_none (by rw [handlerReturn_receiver, hconn.2]; rfl),
          carried_eq_none (by rw [hconn.2]; rfl)]
  | @receiverReturn b e hctx _ _ _ _ =>
      rw [hctx]
      rw [brokerEvent_broker] at hgot
      unfold receiverReturn
      split
      · exact absurd rfl (hgot _ _ _ _)
      · rename_i hpc _ _
        rw [carried_eq_none (by rfl), carried_eq_none (by rw [hpc]; rfl)]
      · rfl

/-! ### What was taken out of the inboxes and what was written -/

/-- A frame is written for a subscription that was handed out. -/
theorem owned_of_frame {K : State n → Action n → Prop} {tr : List (Event n)} {s : State n}
    (h : (machine n capacity hcap apiKey).RunIf K tr s) {i k : Nat} {msg : Message}
    (hframe : .frame i k msg ∈ tr) : ∃ x, Owned (brokerTrace tr) k x := by
  refine h.induction (I := fun tr _ => ∀ i k msg, .frame i k msg ∈ tr →
    ∃ x, Owned (brokerTrace tr) k x) ?_ ?_ i k msg hframe
  · intro i k msg hframe
    cases hframe
  · intro tr s a s' e hrun hinv _ hnext i k msg hframe
    have howned : ∃ x, Owned (brokerTrace tr) k x := by
      rcases List.mem_append.mp hframe with hframe | hframe
      · exact hinv i k msg hframe
      · obtain ⟨-, hsub, hhand, -⟩ :=
          carried_of_frame (next_netStep hnext) (Option.mem_toList.mp hframe)
        have hheld := heldBy_of_receiver hrun (i := i) (by rw [hhand]; simp)
        have hlive := (ownershipInv_of_run hrun).single.held_live i k (hheld.trans hsub)
        exact (MessageBroker.pointerInv_of_run
          (brokerRun_of_run (hrun.mono fun _ _ _ => trivial))).owner k hlive.1
    obtain ⟨x, t, name, hmem⟩ := howned
    exact ⟨x, t, name, by rw [brokerTrace_append]; exact List.mem_append_left _ hmem⟩

/-- What the receivers have taken out of the inboxes is what they have written and what they have
in their hands. -/
structure FramesInv (tr : List (Event n)) (s : State n) : Prop where
  hand : ∀ i k msg x, carried (s.connection i) = some (k, msg) → Owned (brokerTrace tr) k x →
    handedOut (brokerTrace tr) x = framesOf tr k ++ [msg]
  free : ∀ k x, (∀ i msg, carried (s.connection i) ≠ some (k, msg)) →
    Owned (brokerTrace tr) k x → handedOut (brokerTrace tr) x = framesOf tr k

/-- The frames after one more step. -/
theorem framesOf_append (tr : List (Event n)) (e : Option (Event n)) (k : Nat) :
    framesOf (tr ++ e.toList) k = framesOf tr k ++ (e.bind (frameFor k)).toList :=
  filterMap_append_toList (frameFor k) tr e

/-- What was handed out after one more step. -/
theorem handedOut_append (tr : List (Event n)) (e : Option (Event n)) (x : Nat) :
    handedOut (brokerTrace (tr ++ e.toList)) x = handedOut (brokerTrace tr) x ++
      ((e.bind brokerEvent).bind fun e => (gotOf x e).join).toList := by
  rw [brokerTrace_append]
  exact filterMap_append_toList _ _ _

/-- A step that writes no frame and hands out no message. -/
theorem FramesInv.quiet {tr : List (Event n)} {s s' : State n} {e : Option (Event n)}
    (hinv : FramesInv tr s)
    (hcarried : ∀ i, carried (s'.connection i) = carried (s.connection i))
    (hframe : ∀ k, e.bind (frameFor k) = none)
    (hgot : ∀ x, ((e.bind brokerEvent).bind fun e => (gotOf x e).join) = none)
    (howned : ∀ k x, Owned (brokerTrace (tr ++ e.toList)) k x → Owned (brokerTrace tr) k x ∨
      ((∀ i msg, carried (s.connection i) ≠ some (k, msg)) ∧ handedOut (brokerTrace tr) x = [] ∧
        framesOf tr k = [])) :
    FramesInv (tr ++ e.toList) s' := by
  have hsame : ∀ k x, framesOf (tr ++ e.toList) k = framesOf tr k ∧
      handedOut (brokerTrace (tr ++ e.toList)) x = handedOut (brokerTrace tr) x := by
    intro k x
    rw [framesOf_append, handedOut_append, hframe, hgot]
    simp
  constructor
  · intro i k msg x hmsg hx
    rw [hcarried] at hmsg
    rw [(hsame k x).1, (hsame k x).2]
    rcases howned k x hx with hx | ⟨hno, -, -⟩
    · exact hinv.hand i k msg x hmsg hx
    · exact absurd hmsg (hno i msg)
  · intro k x hno hx
    rw [(hsame k x).1, (hsame k x).2]
    rcases howned k x hx with hx | ⟨-, hout, hframes⟩
    · exact hinv.free k x (fun i msg => by rw [← hcarried]; exact hno i msg) hx
    · rw [hout, hframes]

/-- Another connection does not carry a message of a subscription that a receiver works on. -/
theorem not_carried {K : State n → Action n → Prop} {tr : List (Event n)} {s : State n}
    (h : (machine n capacity hcap apiKey).RunIf K tr s) {i j k : Nat} {msg : Message}
    (hsub : (s.connection i).subscription = some k) (hreceiver : (s.connection i).receiver ≠ .absent)
    (hij : j ≠ i) : carried (s.connection j) ≠ some (k, msg) := by
  intro hj
  exact hij (receiver_unique h (carried_eq_some.mp hj).1 hsub (receiver_of_carried hj) hreceiver)

/-- The receiver of the connection `i` writes the frame of the message in its hand. -/
theorem FramesInv.wrote {K : State n → Action n → Prop} {tr : List (Event n)} {s s' : State n}
    (hrun : (machine n capacity hcap apiKey).RunIf K tr s) (hinv : FramesInv tr s) {i k : Nat}
    {msg : Message} (hsub : (s.connection i).subscription = some k)
    (hreceiver : (s.connection i).receiver = .write msg)
    (hctx : s'.connection = Function.update s.connection i
      { s.connection i with receiver := .testActive }) :
    FramesInv (tr ++ [.frame i k msg]) s' := by
  have hbefore : carried (s.connection i) = some (k, msg) :=
    carried_eq_some.mpr ⟨hsub, by rw [hreceiver]; rfl⟩
  have hself : carried (s'.connection i) = none := by
    rw [hctx, Function.update_self]
    exact carried_eq_none rfl
  have hother : ∀ j, j ≠ i → carried (s'.connection j) = carried (s.connection j) := by
    intro j hj
    rw [hctx, Function.update_of_ne hj]
  have htrace : brokerTrace (tr ++ [.frame i k msg]) = brokerTrace tr := by
    show brokerTrace (tr ++ (some (Event.frame i k msg)).toList) = _
    rw [brokerTrace_append]
    exact List.append_nil _
  have hframes : ∀ k', framesOf (tr ++ [.frame i k msg]) k' =
      framesOf tr k' ++ (frameFor k' (.frame i k msg : Event n)).toList :=
    fun k' => framesOf_append tr (some (.frame i k msg)) k'
  constructor
  · intro j k' msg' x hmsg hx
    rw [htrace] at hx ⊢
    have hj : j ≠ i := by
      intro hj
      rw [hj, hself] at hmsg
      cases hmsg
    rw [hother j hj] at hmsg
    have hk : k ≠ k' := by
      intro hk
      subst hk
      exact not_carried hrun hsub (by rw [hreceiver]; simp) hj hmsg
    rw [hframes, frameFor, if_neg hk, Option.toList_none, List.append_nil]
    exact hinv.hand j k' msg' x hmsg hx
  · intro k' x hno hx
    rw [htrace] at hx ⊢
    rw [hframes, frameFor]
    by_cases hk : k = k'
    · subst hk
      rw [if_pos rfl]
      exact hinv.hand i k msg x hbefore hx
    · rw [if_neg hk, Option.toList_none, List.append_nil]
      refine hinv.free k' x (fun j msg' hj => ?_) hx
      by_cases hji : j = i
      · subst hji
        rw [hbefore] at hj
        exact hk (Prod.mk.inj (Option.some.inj hj)).1
      · exact hno j msg' ((hother j hji).trans hj)

/-- The receiver of the connection `i` takes a message out of the inbox `x`. -/
theorem FramesInv.took {K : State n → Action n → Prop} {tr : List (Event n)} {s s' : State n}
    {e : Option (Event n)} (hrun : (machine n capacity hcap apiKey).RunIf K tr s)
    (hinv : FramesInv tr s) {i k x : Nat} {t : Tid n} {msg : Message}
    (he : e.bind brokerEvent = some (.got t k x (some msg))) (hframe : ∀ k, e.bind (frameFor k) = none)
    (hsub : (s.connection i).subscription = some k)
    (hreceiver : (s.connection i).receiver = .receiving) (hx : Owned (brokerTrace tr) k x)
    (hctx : s'.connection = Function.update s.connection i
      { s.connection i with receiver := .malloc msg }) :
    FramesInv (tr ++ e.toList) s' := by
  have hpointer := MessageBroker.pointerInv_of_run
    (brokerRun_of_run (hrun.mono fun _ _ _ => trivial))
  have hbefore : carried (s.connection i) = none := carried_eq_none (by rw [hreceiver]; rfl)
  have hself : carried (s'.connection i) = some (k, msg) := by
    rw [hctx, Function.update_self]
    exact carried_eq_some.mpr ⟨hsub, rfl⟩
  have hother : ∀ j, j ≠ i → carried (s'.connection j) = carried (s.connection j) := by
    intro j hj
    rw [hctx, Function.update_of_ne hj]
  have hfree : ∀ j msg', carried (s.connection j) ≠ some (k, msg') := by
    intro j msg' hj
    by_cases hji : j = i
    · rw [hji, hbefore] at hj
      cases hj
    · exact not_carried hrun hsub (by rw [hreceiver]; simp) hji hj
  have howned : ∀ {k' x'}, Owned (brokerTrace (tr ++ e.toList)) k' x' →
      Owned (brokerTrace tr) k' x' := by
    rintro k' x' ⟨t', name, hmem⟩
    rw [brokerTrace_append, he, List.mem_append] at hmem
    exact ⟨t', name, hmem.resolve_right (by simp)⟩
  have hframes : ∀ k', framesOf (tr ++ e.toList) k' = framesOf tr k' := by
    intro k'
    rw [framesOf_append, hframe, Option.toList_none, List.append_nil]
  have hout : ∀ x', handedOut (brokerTrace (tr ++ e.toList)) x' =
      handedOut (brokerTrace tr) x' ++ if x = x' then [msg] else [] := by
    intro x'
    rw [handedOut_append, he, Option.bind_some, gotOf]
    split_ifs <;> rfl
  constructor
  · intro j k' msg' x' hmsg hx'
    have hx' := howned hx'
    rw [hframes, hout]
    by_cases hj : j = i
    · subst hj
      rw [hself] at hmsg
      obtain ⟨rfl, rfl⟩ := Prod.mk.inj (Option.some.inj hmsg)
      rw [if_pos ((hpointer.unique _ _ _ _ hx hx').mp rfl), hinv.free k x' hfree hx']
    · rw [hother j hj] at hmsg
      have hk : x ≠ x' := by
        intro hxx
        obtain rfl := (hpointer.unique _ _ _ _ hx hx').mpr hxx
        exact hfree j msg' hmsg
      rw [if_neg hk, List.append_nil]
      exact hinv.hand j k' msg' x' hmsg hx'
  · intro k' x' hno hx'
    have hx' := howned hx'
    have hk : x ≠ x' := by
      intro hxx
      obtain rfl := (hpointer.unique _ _ _ _ hx hx').mpr hxx
      exact hno i msg hself
    rw [hframes, hout, if_neg hk, List.append_nil]
    refine hinv.free k' x' (fun j msg' hj => ?_) hx'
    by_cases hji : j = i
    · rw [hji, hbefore] at hj
      cases hj
    · exact hno j msg' ((hother j hji).trans hj)

/-- A new subscription has no frames, and nothing was taken out of its inbox. -/
theorem fresh_of_subscribed {K : State n → Action n → Prop} {tr : List (Event n)} {s : State n}
    (hrun : (machine n capacity hcap apiKey).RunIf K tr s) {t : Tid n} {x : Nat}
    (hproxy : MessageBroker.subscribeProxy (s.broker.pc t) = some x) :
    (∀ i msg, carried (s.connection i) ≠ some (s.broker.shared.nextSubscription, msg)) ∧
      handedOut (brokerTrace tr) x = [] ∧
      framesOf tr s.broker.shared.nextSubscription = [] := by
  have hbroker := brokerRun_of_run (hrun.mono fun _ _ _ => trivial)
  have hpointer := MessageBroker.pointerInv_of_run hbroker
  have hunknown : ∀ y, ¬ Owned (brokerTrace tr) s.broker.shared.nextSubscription y :=
    fun y hy => lt_irrefl _ (hpointer.owned _ y hy).1
  refine ⟨?_, ?_, ?_⟩
  · intro i msg hmsg
    have hheld := heldBy_of_receiver hrun (receiver_of_carried hmsg)
    have hlive := (ownershipInv_of_run hrun).single.held_live i _
      (hheld.trans (carried_eq_some.mp hmsg).1)
    exact lt_irrefl _ hlive.1
  · refine List.filterMap_eq_nil_iff.mpr ?_
    intro e he
    cases e with
    | got t' k y msg =>
        have hy := MessageBroker.owned_of_got hbroker he
        have hne : y ≠ x := by
          rintro rfl
          exact (hpointer.hand t y hproxy).2 k hy
        rw [gotOf, if_neg hne]
        rfl
    | _ => rfl
  · refine List.filterMap_eq_nil_iff.mpr ?_
    intro e he
    cases e with
    | frame i k msg =>
        obtain ⟨y, hy⟩ := owned_of_frame hrun he
        have hne : k ≠ s.broker.shared.nextSubscription := by
          rintro rfl
          exact hunknown y hy
        rw [frameFor, if_neg hne]
    | _ => rfl

/-- `FramesInv` holds in every state of a run in which no receiver fails. -/
theorem framesInv_of_run {tr : List (Event n)} {s : State n}
    (h : (machine n capacity hcap apiKey).RunIf ReceiversSucceed tr s) : FramesInv tr s := by
  refine h.induction ?_ ?_
  · constructor
    · intro i k msg x hmsg
      cases hmsg
    · intro k x _ _
      rfl
  · intro tr s a s' e hrun hinv hK hnext
    have hstep := next_netStep hnext
    by_cases hframe : ∃ i k msg, e = some (.frame i k msg)
    · obtain ⟨i, k, msg, he⟩ := hframe
      obtain ⟨-, hsub, hreceiver, hctx⟩ := carried_of_frame hstep he
      rw [he]
      exact hinv.wrote hrun hsub hreceiver hctx
    · have hnoframe : ∀ k, e.bind (frameFor k) = none := by
        intro k
        cases e with
        | none => rfl
        | some e =>
            cases e with
            | frame i k' msg => exact absurd ⟨i, k', msg, rfl⟩ hframe
            | _ => rfl
      by_cases hgot : ∃ t k x msg, e.bind brokerEvent = some (.got t k x (some msg))
      · obtain ⟨t, k, x, msg, he⟩ := hgot
        obtain ⟨i, -, -, -, hreceiver, hsub, hx, hctx, -⟩ := got_of_netStep hrun hstep he
        refine hinv.took hrun he hnoframe hsub hreceiver hx ?_
        rw [hctx]
        simp only [receiverReturn, hreceiver]
      · have hnogot : ∀ x, ((e.bind brokerEvent).bind fun e => (gotOf x e).join) = none := by
          intro x
          cases hb : e.bind brokerEvent with
          | none => rfl
          | some b =>
              cases b with
              | got t k y msg =>
                  cases msg with
                  | none =>
                      rw [Option.bind_some, gotOf]
                      split_ifs <;> rfl
                  | some msg => exact absurd ⟨t, k, y, msg, hb⟩ hgot
              | _ => rfl
        refine hinv.quiet (fun i => ?_) hnoframe hnogot ?_
        · refine carried_of_connectionStep (hstep.connectionStep i) hK (connectionInv_of_run hrun i)
            (fun hi => ?_) (fun k msg he => hframe ⟨i, k, msg, he⟩)
            fun t k x msg he => hgot ⟨t, k, x, msg, he⟩
          exact noConnection_of_run (hrun.mono fun _ _ _ => trivial) i hi.le
        · rintro k x ⟨t, name, hmem⟩
          rw [brokerTrace_append, List.mem_append, Option.mem_toList] at hmem
          rcases hmem with hmem | hmem
          · exact Or.inl ⟨t, name, hmem⟩
          · rcases hstep.broker with ⟨-, hnone⟩ | ⟨b, -, hb⟩
            · rw [hnone] at hmem
              cases hmem
            · rw [hmem] at hb
              obtain ⟨rfl, hproxy⟩ := MessageBroker.next_subscribed hb
              exact Or.inr (fresh_of_subscribed hrun hproxy)

/-- Nothing is lost, written twice or put out of order, however often a subscription is detached and
attached: when no message of it is between the dequeue and the write, the frames written for it
followed by the messages in its inbox are the messages that were put into its inbox. -/
theorem frames_append_inbox {tr : List (Event n)} {s : State n}
    (h : (machine n capacity hcap apiKey).RunIf ReceiversSucceed tr s) {k x : Nat}
    (hx : Owned (brokerTrace tr) k x)
    (hhand : ∀ i msg, carried (s.connection i) ≠ some (k, msg)) :
    framesOf tr k ++ (s.broker.shared.proxy x).inbox = puts (brokerTrace tr) x := by
  have hbroker := brokerRun_of_run (h.mono fun _ _ _ => trivial)
  rw [← (framesInv_of_run h).free k x hhand hx]
  exact (MessageBroker.inboxInv_of_run hbroker).balance x

end

end

/-! ### A subscription that moves from one client to another -/

/-- A thread of the program publishes one byte on the channel `c`, and the dispatcher runs the
task. -/
def publishByte (b : UInt8) : List (Action 1) :=
  [.publish 0 (.ofBuffer (Stdio.ascii "c")) (.ofBuffer [b]), .broker (.submit 3)] ++
    List.replicate 6 (.broker (.pool 3 .go)) ++ dispatcherGo 13 5

/-- The receiver of the connection `i` takes a message and writes its frame. -/
def receiveFrame (i : Nat) : List (Action 1) :=
  [.receiver i .go, .receiver i .go] ++ brokerGo (.client (Client.receiver i).number) 6 ++
    [.receiver i .go, .receiver i .go]

/-- The first client subscribes, gets a message and detaches. A second message comes, and the second
client attaches and gets it. A third message comes. -/
def detachAndAttach : List (Action 1) :=
  [.accept] ++ handlerSteps 0 1 ++ handlerLine 0 "AUTH k\n" ++ handlerSteps 0 2 ++
    handlerLine 0 "SUBSCRIBE c\n" ++ handlerSteps 0 1 ++ brokerGo (.client 1) 10 ++
    handlerSteps 0 5 ++ publishByte 97 ++ receiveFrame 0 ++
    handlerLine 0 "DETACH\n" ++ handlerSteps 0 1 ++ [.receiver 0 .go] ++ handlerSteps 0 4 ++
    publishByte 98 ++
    [.accept] ++ handlerSteps 1 1 ++ handlerLine 1 "AUTH k\n" ++ handlerSteps 1 2 ++
    handlerLine 1 "ATTACH 1\n" ++ handlerSteps 1 4 ++ brokerGo (.client 4) 2 ++
    handlerSteps 1 2 ++ receiveFrame 1 ++ publishByte 99

/-- The message of the publish number `m`. -/
def byteMessage (m : Nat) (b : UInt8) : Message :=
  ⟨UInt64.ofNat (m + 1), .ofBuffer (Stdio.ascii "c"), .ofBuffer [b], m⟩

/-- One frame on each connection, and one message in the inbox. -/
theorem frames_append_inbox_detachAndAttach :
    ∃ tr s, (machine 1 4 (by decide) none).RunIf ReceiversSucceed tr s ∧
      .frame 0 0 (byteMessage 0 97) ∈ tr ∧ .frame 1 0 (byteMessage 1 98) ∈ tr ∧
      Owned (brokerTrace tr) 0 0 ∧ (∀ i msg, carried (s.connection i) ≠ some (0, msg)) ∧
      puts (brokerTrace tr) 0 = [byteMessage 0 97, byteMessage 1 98, byteMessage 2 99] ∧
      framesOf tr 0 ++ (s.broker.shared.proxy 0).inbox = puts (brokerTrace tr) 0 := by
  obtain ⟨tr, s, hrun, hp⟩ := Machine.runIf_of_exec (M := machine 1 4 (by decide) none)
    (K := ReceiversSucceed) detachAndAttach
    (fun tr s => decide (.frame 0 0 (byteMessage 0 97) ∈ tr ∧ .frame 1 0 (byteMessage 1 98) ∈ tr ∧
        .broker (.subscribed (.client 1) 0 0 (.ofBuffer (Stdio.ascii "c"))) ∈ tr) &&
      decide (s.nextConnection = 2 ∧ carried (s.connection 0) = none ∧
        carried (s.connection 1) = none ∧ puts (brokerTrace tr) 0 = [byteMessage 0 97, byteMessage 1 98, byteMessage 2 99]))
    (by decide +kernel)
  obtain ⟨htrace, hstate⟩ := Bool.and_eq_true_iff.mp hp
  obtain ⟨hfirst, hsecond, hsub⟩ := of_decide_eq_true htrace
  obtain ⟨hcount, hempty₀, hempty₁, hputs⟩ := of_decide_eq_true hstate
  have howned : Owned (brokerTrace tr) 0 0 :=
    ⟨_, _, List.mem_filterMap.mpr ⟨_, hsub, rfl⟩⟩
  have hhand : ∀ i msg, carried (s.connection i) ≠ some (0, msg) := by
    intro i msg hmsg
    by_cases hi : i < 2
    · interval_cases i
      · rw [hempty₀] at hmsg
        cases hmsg
      · rw [hempty₁] at hmsg
        cases hmsg
    · rw [noConnection_of_run (hrun.mono fun _ _ _ => trivial) i (by omega)] at hmsg
      cases hmsg
  exact ⟨tr, s, hrun, hfirst, hsecond, howned, hhand, hputs, frames_append_inbox hrun howned hhand⟩

end Miez.Proofs.NetworkServer
