import Miez.Proofs.NetworkServer.Reconnection

/-!
# `Miez.Proofs.NetworkServer.Replies`: the reply to a command and the first frames

`_handle_subscribe` and `_handle_attach` start the receiver thread before they reply, and
`_handle_attach` counts the pending messages after that. So the receiver can write a frame before
the reply, and it can take a message that is then missing in the count
(`frame_before_attach_reply`).

`ReceiverWaits` says that neither happens. `reply_before_frames`: in a run of such steps the reply
comes before the first frame, and the count of an attach is the number of the messages that were in
the inbox when the subscription was taken from the registry, and of those that came since.
-/

set_option autoImplicit false

namespace Miez.Proofs.NetworkServer

open Miez.Lib
open Miez.NetworkServer
open Miez.ThreadPool (Tid)
open Miez.MessageBroker (Message)
open Miez.Proofs
open Miez.Proofs.MessageBroker (Owned puts handedOut gotOf)

section
variable {n : Nat}

/-- The handler has started a receiver, or could not, and is on the way to its reply. -/
def answering : HandlerPc → Bool
  | .getId | .callPending | .pendingCount | .reply (.okNumber _) _ => true
  | _ => false

/-- The handler has attached a subscription and not counted the messages. -/
def counting : HandlerPc → Bool
  | .callPending | .pendingCount => true
  | _ => false

/-- The receiver has a frame that is ready to be written. -/
def isWriting : ReceiverPc → Bool
  | .write _ => true
  | _ => false

/-- A receiver does not write a frame before the handler of its connection has replied to the
command that started it, and does not take a message before that handler has counted. -/
def ReceiverWaits (s : State n) : Action n → Prop
  | .receiver i .go =>
      isWriting (s.connection i).receiver = true → answering (s.connection i).handler = false
  | .broker (.thread (.client c) _) =>
      match clientOf c, s.broker.pc (.client c) with
      | .receiver i, .receive _ _ (.dequeue _) => counting (s.connection i).handler = false
      | _, _ => True
  | _ => True

instance (s : State n) (a : Action n) : Decidable (ReceiverWaits s a) := by
  unfold ReceiverWaits
  induction a using NetworkServer.Action.casesOn with
  | receiver i move => induction move using NetworkServer.Move.casesOn <;> infer_instance
  | broker b =>
      induction b using MessageBroker.Action.casesOn with
      | thread t move =>
          induction t using ThreadPool.Tid.casesOn with
          | client c =>
              dsimp only
              generalize clientOf c = client
              generalize s.broker.pc (.client c) = pc
              induction client using NetworkServer.Client.casesOn with
              | receiver i =>
                  induction pc using MessageBroker.Pc.casesOn with
                  | receive k tryReceive r =>
                      induction r using MessageBroker.ReceivePc.casesOn <;> infer_instance
                  | _ => infer_instance
              | _ => infer_instance
          | dispatcher d => infer_instance
      | _ => infer_instance
  | _ => infer_instance

/-- A handler that has counted is on the way to its reply. -/
theorem answering_of_counting {pc : HandlerPc} (h : counting pc = true) : answering pc = true := by
  cases pc <;> first | rfl | cases h

section
variable {capacity : UInt64} {hcap : capacity ≠ 0} {apiKey : Option CString}

/-! ### What a receiver that waits does not do -/

/-- No frame is written for a subscription whose owner is on the way to its reply. -/
theorem no_frame_while_answering {K : State n → Action n → Prop} {tr : List (Event n)}
    {s s' : State n} {a : Action n} {e : Option (Event n)} {i k : Nat}
    (hrun : (machine n capacity hcap apiKey).RunIf K tr s) (h : NetStep apiKey s a s' e)
    (hK : ReceiverWaits s a) (hheld : heldBy (s.connection i) = some k)
    (hwait : (s.connection i).receiver = .absent ∨ answering (s.connection i).handler = true)
    (j : Nat) (msg : Message) : e ≠ some (.frame j k msg) := by
  intro he
  obtain ⟨rfl, hsub, hreceiver, -⟩ := carried_of_frame h he
  have hj : heldBy (s.connection j) = some k :=
    (heldBy_of_receiver hrun (by rw [hreceiver]; simp)).trans hsub
  obtain rfl : j = i := (ownershipInv_of_run hrun).single.unique j i k hj hheld
  rcases hwait with habsent | hanswering
  · rw [habsent] at hreceiver
    cases hreceiver
  · rw [hK (by rw [hreceiver]; rfl)] at hanswering
    cases hanswering

/-- No message is taken out of an inbox whose owner has not counted. -/
theorem no_got_while_counting {K : State n → Action n → Prop} {tr : List (Event n)}
    {s s' : State n} {a : Action n} {e : Option (Event n)} {i k x : Nat}
    (hrun : (machine n capacity hcap apiKey).RunIf K tr s) (h : NetStep apiKey s a s' e)
    (hK : ReceiverWaits s a) (hheld : heldBy (s.connection i) = some k)
    (hx : Owned (brokerTrace tr) k x)
    (hwait : (s.connection i).receiver = .absent ∨ counting (s.connection i).handler = true)
    (t : Tid n) (k' : Nat) (msg : Option Message) :
    e.bind brokerEvent ≠ some (.got t k' x msg) := by
  intro he
  have hpointer := MessageBroker.pointerInv_of_run
    (brokerRun_of_run (hrun.mono fun _ _ _ => trivial))
  obtain ⟨j, rfl, rfl, hpc, hreceiver, hsub, hx', -, -⟩ := got_of_netStep hrun h he
  obtain rfl : k = k' := (hpointer.unique _ _ _ _ hx hx').mpr rfl
  have hj : heldBy (s.connection j) = some k :=
    (heldBy_of_receiver hrun (by rw [hreceiver]; simp)).trans hsub
  obtain rfl : j = i := (ownershipInv_of_run hrun).single.unique j i k hj hheld
  rcases hwait with habsent | hcounting
  · rw [habsent] at hreceiver
    cases hreceiver
  · simp only [ReceiverWaits, clientOf_number, hpc] at hK
    rw [hK] at hcounting
    cases hcounting

/-! ### The events of a handler -/

/-- The connection whose handler shows the event when it takes a step outside the broker. -/
def handlerEvent : Event n → Option Nat
  | .command i _ | .reply i _ | .attached i _ _ | .linked i _ _ | .receiverCreated i
  | .receiverJoined i => some i
  | _ => none

/-- A call of the broker does not show such an event. -/
theorem handlerEvent_callEvent (i : Nat) (ctx : Connection) (e : MessageBroker.Event n) :
    handlerEvent (callEvent i ctx e) = none := by
  unfold callEvent
  split <;> rfl

/-- Such an event is shown by a step of the handler. -/
theorem handlerStep_of_event {s s' : State n} {a : Action n} {x : Event n} {i : Nat}
    (h : NetStep apiKey s a s' (some x)) (hx : handlerEvent x = some i) :
    ∃ move, a = .handler i move ∧
      HandlerStep apiKey i s.running s.broker.shared s.detachedSubscriptions (s.connection i)
        move (.step (s'.connection i) s'.detachedSubscriptions (some x)) := by
  generalize he : some x = e at h
  cases h.connectionStep i with
  | same _ hne =>
      refine absurd ?_ (hne x he.symm)
      cases x <;> first | exact hx | cases hx
  | accept _ _ _ =>
      cases he
      cases hx
  | handler hstep _ =>
      subst he
      exact ⟨_, rfl, hstep⟩
  | handlerCall _ _ | receiverCall _ _ =>
      obtain ⟨y, -, rfl⟩ := Option.map_eq_some_iff.mp he.symm
      rw [handlerEvent_callEvent] at hx
      cases hx
  | receiver hstep _ =>
      subst he
      generalize s'.connection i = ctx' at hstep
      generalize s'.detachedSubscriptions = registry' at hstep
      cases hstep
      cases hx
  | handlerReturn | receiverReturn =>
      obtain ⟨y, -, rfl⟩ := Option.map_eq_some_iff.mp he.symm
      cases hx

/-- A command is taken by the handler that reads it. -/
theorem command_of_netStep {s s' : State n} {a : Action n} {i : Nat} {buffer : List UInt8}
    (h : NetStep apiKey s a s' (some (.command i buffer))) :
    ∃ pc, (s.connection i).handler = .read pc ∧
      s'.connection i = handleCommand apiKey (s.connection i) buffer := by
  obtain ⟨move, -, hstep⟩ := handlerStep_of_event h rfl
  generalize s'.connection i = ctx' at hstep ⊢
  generalize s'.detachedSubscriptions = registry' at hstep
  cases hstep with
  | command hpc _ => exact ⟨_, hpc, rfl⟩

/-- A subscription is taken from the registry by the handler that attaches it. -/
theorem attached_of_netStep {s s' : State n} {a : Action n} {i k : Nat} {id : UInt64}
    (h : NetStep apiKey s a s' (some (.attached i id k))) :
    (s'.connection i).handler = .activate true ∧ (s'.connection i).subscription = some k := by
  obtain ⟨move, -, hstep⟩ := handlerStep_of_event h rfl
  generalize s'.connection i = ctx' at hstep ⊢
  generalize s'.detachedSubscriptions = registry' at hstep
  cases hstep with
  | attach _ _ => exact ⟨rfl, rfl⟩

/-- A reply is written by the handler that has it ready. -/
theorem reply_of_netStep {s s' : State n} {a : Action n} {i : Nat} {r : Reply}
    (h : NetStep apiKey s a s' (some (.reply i r))) :
    ∃ last, (s.connection i).handler = .reply r last := by
  obtain ⟨move, -, hstep⟩ := handlerStep_of_event h rfl
  generalize s'.connection i = ctx' at hstep
  generalize s'.detachedSubscriptions = registry' at hstep
  cases hstep with
  | reply hpc => exact ⟨_, hpc⟩

/-! ### The reply comes first -/

/-- A handler on the way to its reply stays so when it returns from the broker. -/
theorem answering_handlerReturn {ctx : Connection} {e : Option (MessageBroker.Event n)}
    (h : answering ctx.handler = true) : answering (handlerReturn ctx e).handler = true := by
  unfold handlerReturn
  split <;> first | exact h | rfl | simp_all [answering]

/-- A connection that has no receiver, or whose handler is on the way to its reply, stays so until
the reply, and no frame is written on it. -/
theorem waiting_of_connectionStep {s s' : State n} {i : Nat} {a : Action n} {e : Option (Event n)}
    (h : ConnectionStep apiKey s s' i a e) (hK : ReceiverWaits s a)
    (hfault : (s'.connection i).handler = .faulted → (s'.connection i).receiver = .absent)
    (hwait : (s.connection i).receiver = .absent ∨ answering (s.connection i).handler = true) :
    (∃ r, e = some (.reply i r)) ∨
      ((∀ k msg, e ≠ some (.frame i k msg)) ∧
        ((s'.connection i).receiver = .absent ∨ answering (s'.connection i).handler = true)) := by
  cases h with
  | same hctx he =>
      rw [hctx]
      exact Or.inr ⟨fun k msg hframe => he _ hframe rfl, hwait⟩
  | accept _ hctx _ =>
      rw [hctx]
      exact Or.inr ⟨fun k msg hframe => (by cases hframe), Or.inl rfl⟩
  | handler hstep _ =>
      generalize s'.connection i = ctx' at hstep hfault ⊢
      generalize s'.detachedSubscriptions = registry' at hstep
      -- At a program point outside the way to the reply there is no receiver.
      have habsent : answering (s.connection i).handler = false →
          (s.connection i).receiver = .absent := by
        intro hnot
        rcases hwait with habsent | hanswering
        · exact habsent
        · rw [hnot] at hanswering
          cases hanswering
      cases hstep with
      | reply => exact Or.inl ⟨_, rfl⟩
      | command hpc _ =>
          refine Or.inr ⟨fun k msg hframe => (by cases hframe), Or.inl ?_⟩
          rw [(handleCommand_fields ..).2.2.2]
          exact habsent (by rw [hpc]; rfl)
      | @createReceiver attach _ | @createFailed attach _ =>
          refine Or.inr ⟨fun k msg hframe => (by cases hframe), Or.inr ?_⟩
          cases attach <;> rfl
      | getId =>
          refine Or.inr ⟨fun k msg hframe => (by cases hframe), ?_⟩
          unfold withId at hfault ⊢
          split
          · exact Or.inr rfl
          · rename_i hnone
            exact Or.inl (hfault (by rw [hnone]))
      | joinDetach | joinLeave => exact Or.inr ⟨fun k msg hframe => (by cases hframe), Or.inl rfl⟩
      | start hpc _ | stopped hpc _ | readMore hpc _ | readLeave hpc _ | readPublish hpc _
      | readFailed hpc _ | activate hpc | notFound hpc _ | attach hpc _ | deactivate hpc
      | addDetached hpc | addFailed hpc | link hpc _ | detach hpc _ | detachFault hpc _
      | publishFailed hpc | leave hpc =>
          exact Or.inr ⟨fun k msg hframe => (by cases hframe),
            Or.inl (habsent (by rw [hpc]; rfl))⟩
  | handlerCall hstep _ =>
      generalize s'.connection i = ctx' at hstep hfault ⊢
      refine Or.inr ⟨fun k msg hframe => ?_, ?_⟩
      · obtain ⟨y, -, hy⟩ := Option.map_eq_some_iff.mp hframe
        unfold callEvent at hy
        split at hy <;> cases hy
      · cases hstep with
        | callPending => exact Or.inr rfl
        | callSubscribe hpc | callPublish hpc | callUnsubscribe hpc _ | callFree hpc _ =>
            rcases hwait with habsent | hanswering
            · exact Or.inl habsent
            · rw [hpc] at hanswering
              cases hanswering
  | receiver hstep _ =>
      generalize s'.connection i = ctx' at hstep ⊢
      generalize s'.detachedSubscriptions = registry' at hstep
      have hanswering : answering (s.connection i).handler = true := by
        refine hwait.resolve_left fun habsent => ?_
        cases hstep <;> simp_all
      cases hstep with
      | write hpc _ =>
          rw [hK (by rw [hpc]; rfl)] at hanswering
          cases hanswering
      | _ => exact Or.inr ⟨fun k msg hframe => (by cases hframe), Or.inr hanswering⟩
  | receiverCall hstep _ =>
      generalize s'.connection i = ctx' at hstep ⊢
      refine Or.inr ⟨fun k msg hframe => ?_, ?_⟩
      · obtain ⟨y, -, hy⟩ := Option.map_eq_some_iff.mp hframe
        unfold callEvent at hy
        split at hy <;> cases hy
      · cases hstep with
        | callReceive hpc _ =>
            rcases hwait with habsent | hanswering
            · rw [hpc] at habsent
              cases habsent
            · exact Or.inr hanswering
  | @handlerReturn b e hctx _ _ _ _ =>
      rw [hctx, handlerReturn_receiver]
      refine Or.inr ⟨fun k msg hframe => ?_, hwait.imp_right answering_handlerReturn⟩
      cases e <;> cases hframe
  | @receiverReturn b e hctx _ _ _ _ =>
      rw [hctx, (receiverReturn_fields ..).1, receiverReturn_absent_iff]
      refine Or.inr ⟨fun k msg hframe => ?_, hwait⟩
      cases e <;> cases hframe

/-- After a command of a connection without a subscription the reply comes before the first
frame. -/
theorem replied_of_frame {pre : List (Event n)} {s₀ s₁ s : State n} {a : Action n} {i : Nat}
    {buffer : List UInt8} (hpre : (machine n capacity hcap apiKey).RunIf ReceiverWaits pre s₀)
    (hK : ReceiverWaits s₀ a) (hnext : next apiKey s₀ a = some (s₁, some (.command i buffer)))
    (hfree : (s₀.connection i).subscription = none) {mid : List (Event n)}
    (hmid : ((machine n capacity hcap apiKey).startAt s₁).RunIf ReceiverWaits mid s) :
    (∃ r, .reply i r ∈ mid) ∨
      ((∀ k msg, .frame i k msg ∉ mid) ∧
        ((s.connection i).receiver = .absent ∨ answering (s.connection i).handler = true)) := by
  have hpre' := hpre.snoc hK hnext
  refine hmid.induction (I := fun mid s => (∃ r, .reply i r ∈ mid) ∨
    ((∀ k msg, .frame i k msg ∉ mid) ∧
      ((s.connection i).receiver = .absent ∨ answering (s.connection i).handler = true))) ?_ ?_
  · refine Or.inr ⟨fun k msg h => (by cases h), Or.inl ?_⟩
    show (s₁.connection i).receiver = .absent
    -- The step that reads the command leaves the receiver alone, and there is none.
    have hconn := connectionInv_of_run hpre i
    obtain ⟨pc, hpc, hctx⟩ := command_of_netStep (next_netStep hnext)
    rw [hctx, (handleCommand_fields ..).2.2.2]
    unfold ConnectionInv at hconn
    rw [hpc] at hconn
    rcases hconn with hconn | hconn
    · exact hconn.2
    · exact absurd hfree hconn.1
  · intro mid s a s' e hrun hinv hK hnext
    rcases hinv with ⟨r, hr⟩ | ⟨hframes, hwait⟩
    · exact Or.inl ⟨r, List.mem_append_left _ hr⟩
    · have hfull := (hpre'.trans hrun).snoc hK hnext
      rcases waiting_of_connectionStep ((next_netStep hnext).connectionStep i) hK
        (receiver_of_faulted hfull i) hwait with ⟨r, rfl⟩ | ⟨hframe, hwait'⟩
      · exact Or.inl ⟨r, by simp⟩
      · refine Or.inr ⟨fun k msg hmem => ?_, hwait'⟩
        rcases List.mem_append.mp hmem with hmem | hmem
        · exact hframes k msg hmem
        · exact hframe k msg (Option.mem_toList.mp hmem)

/-! ### The count of an attach -/

/-- The handler has taken a subscription from the registry and not counted its messages. -/
def uncounted : HandlerPc → Bool
  | .activate true | .createReceiver true | .callPending | .pendingCount => true
  | _ => false

/-- Where an attach of the subscription `k` with the proxy `x` by the connection `i` is, after the
events `mid` since the subscription was taken from the registry with `waiting` messages in its
inbox. -/
inductive AttachPhase (i k x waiting : Nat) (mid : List (Event n)) (s : State n) : Prop where
  | replied (r : Reply) (hreply : .reply i r ∈ mid)
  | uncounted (hpc : uncounted (s.connection i).handler = true)
      (hsub : (s.connection i).subscription = some k) (hframes : framesOf mid k = [])
      (hout : handedOut (brokerTrace mid) x = [])
  | counted (m : Nat) (t : Tid n) (mid₁ mid₂ : List (Event n))
      (hpc : (s.connection i).handler = .reply (.okNumber m) false)
      (hsub : (s.connection i).subscription = some k) (hframes : framesOf mid k = [])
      (hmid : mid = mid₁ ++ .broker (.pending t k m) :: mid₂)
      (hm : m = waiting + (puts (brokerTrace mid₁) x).length)

/-- A handler before its count owns the subscription and is not leaving. While there is a receiver,
the handler is on the way to its reply. -/
theorem waits_of_uncounted {ctx : Connection} (h : uncounted ctx.handler = true)
    (hconn : ConnectionInv ctx) :
    heldBy ctx = ctx.subscription ∧ isLeaving ctx.handler = false ∧
      (ctx.receiver = .absent ∨ counting ctx.handler = true) := by
  unfold ConnectionInv at hconn
  cases hpc : ctx.handler with
  | activate attach | createReceiver attach =>
      rw [hpc] at hconn
      exact ⟨heldBy_eq (by simp [hpc]) (by simp [hpc]), rfl, Or.inl hconn.2⟩
  | callPending | pendingCount =>
      exact ⟨heldBy_eq (by simp [hpc]) (by simp [hpc]), rfl, Or.inr rfl⟩
  | _ =>
      rw [hpc] at h
      cases h

/-- What the handler of an attach does next: it goes on to the count, or the count returns. -/
theorem uncounted_of_connectionStep {s s' : State n} {i : Nat} {a : Action n}
    {e : Option (Event n)} (h : ConnectionStep apiKey s s' i a e)
    (hnew : s.nextConnection = i → s.connection i = noConnection)
    (hpc : uncounted (s.connection i).handler = true) :
    (uncounted (s'.connection i).handler = true ∧
      (s'.connection i).subscription = (s.connection i).subscription) ∨
    ∃ b t k count, e = some (.broker (.pending t k count)) ∧
      clientNumber b = some (Client.handler i).number ∧
      (s.connection i).handler = .pendingCount ∧
      MessageBroker.next s.broker b = some (s'.broker, some (.pending t k count)) ∧
      s'.connection i = { s.connection i with handler := .reply (.okNumber count) false } := by
  cases h with
  | same hctx _ =>
      rw [hctx]
      exact Or.inl ⟨hpc, rfl⟩
  | accept hi _ _ =>
      rw [hnew hi.symm] at hpc
      cases hpc
  | handler hstep _ =>
      generalize s'.connection i = ctx' at hstep ⊢
      generalize s'.detachedSubscriptions = registry' at hstep
      refine Or.inl ?_
      cases hstep with
      | @activate attach hpc' | @createReceiver attach hpc' | @createFailed attach hpc' =>
          rw [hpc'] at hpc
          cases attach with
          | true => exact ⟨rfl, rfl⟩
          | false => cases hpc
      | _ => simp_all [uncounted]
  | handlerCall hstep _ =>
      generalize s'.connection i = ctx' at hstep ⊢
      refine Or.inl ?_
      cases hstep with
      | callPending _ _ => exact ⟨rfl, rfl⟩
      | _ => simp_all [uncounted]
  | receiver hstep _ =>
      generalize s'.connection i = ctx' at hstep ⊢
      generalize s'.detachedSubscriptions = registry' at hstep
      cases hstep <;> exact Or.inl ⟨hpc, rfl⟩
  | receiverCall hstep _ =>
      generalize s'.connection i = ctx' at hstep ⊢
      cases hstep
      exact Or.inl ⟨hpc, rfl⟩
  | @handlerReturn b e hctx _ hb hclient _ =>
      by_cases hcount : ∃ t k count, e = some (.pending t k count) ∧
          (s.connection i).handler = .pendingCount
      · obtain ⟨t, k, count, rfl, hpc'⟩ := hcount
        refine Or.inr ⟨b, t, k, count, rfl, hclient, hpc', hb, ?_⟩
        rw [hctx]
        simp only [handlerReturn, hpc']
      · -- The other returns are of other calls.
        have hsame : handlerReturn (s.connection i) e = s.connection i := by
          unfold handlerReturn
          split <;> simp_all [uncounted]
        rw [hctx, hsame]
        exact Or.inl ⟨hpc, rfl⟩
  | @receiverReturn b e hctx _ _ _ _ =>
      rw [hctx, (receiverReturn_fields ..).1, (receiverReturn_fields ..).2]
      exact Or.inl ⟨hpc, rfl⟩

/-- A handler that is about to reply with its count stays there until the reply. -/
theorem counted_of_connectionStep {s s' : State n} {i m : Nat} {a : Action n}
    {e : Option (Event n)} (h : ConnectionStep apiKey s s' i a e)
    (hnew : s.nextConnection = i → s.connection i = noConnection)
    (hpc : (s.connection i).handler = .reply (.okNumber m) false) :
    (∃ r, e = some (.reply i r)) ∨
      ((s'.connection i).handler = .reply (.okNumber m) false ∧
        (s'.connection i).subscription = (s.connection i).subscription) := by
  cases h with
  | same hctx _ =>
      rw [hctx]
      exact Or.inr ⟨hpc, rfl⟩
  | accept hi _ _ =>
      rw [hnew hi.symm] at hpc
      cases hpc
  | handler hstep _ =>
      generalize s'.connection i = ctx' at hstep ⊢
      generalize s'.detachedSubscriptions = registry' at hstep
      cases hstep with
      | reply => exact Or.inl ⟨_, rfl⟩
      | _ => simp_all
  | handlerCall hstep _ =>
      generalize s'.connection i = ctx' at hstep ⊢
      cases hstep <;> simp_all
  | receiver hstep _ =>
      generalize s'.connection i = ctx' at hstep ⊢
      generalize s'.detachedSubscriptions = registry' at hstep
      cases hstep <;> exact Or.inr ⟨hpc, rfl⟩
  | receiverCall hstep _ =>
      generalize s'.connection i = ctx' at hstep ⊢
      cases hstep
      exact Or.inr ⟨hpc, rfl⟩
  | @handlerReturn b e hctx _ _ _ _ =>
      rw [hctx]
      simp only [handlerReturn, hpc]
      exact Or.inr ⟨trivial, trivial⟩
  | @receiverReturn b e hctx _ _ _ _ =>
      rw [hctx, (receiverReturn_fields ..).1, (receiverReturn_fields ..).2]
      exact Or.inr ⟨hpc, rfl⟩

/-- A step that writes no frame of a subscription. -/
theorem framesOf_append_of_ne {mid : List (Event n)} {e : Option (Event n)} {k : Nat}
    (h : ∀ j msg, e ≠ some (.frame j k msg)) : framesOf (mid ++ e.toList) k = framesOf mid k := by
  have hnone : e.bind (frameFor k) = none := by
    cases e with
    | none => rfl
    | some e =>
        cases e with
        | frame j k' msg =>
            have hne : k' ≠ k := by
              rintro rfl
              exact h j msg rfl
            rw [Option.bind_some, frameFor, if_neg hne]
        | _ => rfl
  rw [framesOf_append, hnone, Option.toList_none, List.append_nil]

/-- A step that takes nothing out of an inbox. -/
theorem handedOut_append_of_ne {mid : List (Event n)} {e : Option (Event n)} {x : Nat}
    (h : ∀ t k msg, e.bind brokerEvent ≠ some (.got t k x msg)) :
    handedOut (brokerTrace (mid ++ e.toList)) x = handedOut (brokerTrace mid) x := by
  have hnone : ((e.bind brokerEvent).bind fun e => (gotOf x e).join) = none := by
    cases hb : e.bind brokerEvent with
    | none => rfl
    | some b =>
        cases b with
        | got t k y msg =>
            have hne : y ≠ x := by
              rintro rfl
              exact h t k msg hb
            rw [Option.bind_some, gotOf, if_neg hne]
            rfl
        | _ => rfl
  rw [handedOut_append, hnone, Option.toList_none, List.append_nil]

/-- The count of the connection that owns a subscription is the number of the messages in its
inbox. -/
theorem count_eq {K : State n → Action n → Prop} {tr : List (Event n)} {s : State n}
    (hrun : (machine n capacity hcap apiKey).RunIf K tr s) {i k k' x count : Nat} {t : Tid n}
    {b : MessageBroker.Action n} {s' : MessageBroker.State n}
    (hb : MessageBroker.next s.broker b = some (s', some (.pending t k' count)))
    (hclient : clientNumber b = some (Client.handler i).number)
    (hpc : (s.connection i).handler = .pendingCount)
    (hsub : (s.connection i).subscription = some k) (hx : Owned (brokerTrace tr) k x) :
    k' = k ∧ count = (s.broker.shared.proxy x).inbox.length := by
  have hbroker := brokerRun_of_run (hrun.mono fun _ _ _ => trivial)
  obtain ⟨rfl, ⟨second, hcall⟩, hcount⟩ := MessageBroker.next_pending hb
  obtain rfl : t = .client (Client.handler i).number := by
    have hactor : actor (.thread t .go : MessageBroker.Action n) = _ :=
      actor_of_clientNumber.mpr hclient
    exact hactor
  have hexpected : callOf _ = handlerCall (s.connection i) := callInv_of_run hrun (.handler i)
  rw [hcall, handlerCall, hpc, hsub] at hexpected
  obtain rfl : k' = k := Call.pendingCount.inj hexpected
  refine ⟨rfl, ?_⟩
  have hnot := not_unsubscribed hrun (i := i) (k := k')
    ((heldBy_eq (by simp [hpc]) (by simp [hpc])).trans hsub) (by rw [hpc]; rfl)
  rcases (MessageBroker.pointerInv_of_run hbroker).keep k' x hx with hproxy | ⟨-, hun⟩
  · rcases hcount with ⟨hnone, -⟩ | ⟨y, hy, hcount⟩
    · rw [hnone] at hproxy
      cases hproxy
    · obtain rfl : y = x := Option.some.inj (hy.symm.trans hproxy)
      exact hcount
  · exact absurd hun hnot

/-- After an attach the handler counts before the receiver takes anything, and replies with the
count before the first frame. -/
theorem attachPhase_of_run {pre : List (Event n)} {s₀ s₁ s : State n} {a : Action n}
    {i k x : Nat} {id : UInt64}
    (hpre : (machine n capacity hcap apiKey).RunIf ReceiverWaits pre s₀)
    (hK : ReceiverWaits s₀ a) (hnext : next apiKey s₀ a = some (s₁, some (.attached i id k)))
    (hx : Owned (brokerTrace pre) k x) {mid : List (Event n)}
    (hmid : ((machine n capacity hcap apiKey).startAt s₁).RunIf ReceiverWaits mid s) :
    AttachPhase i k x (s₀.broker.shared.proxy x).inbox.length mid s := by
  have hpre' := hpre.snoc hK hnext
  have hbalance := (MessageBroker.inboxInv_of_run
    (brokerRun_of_run (hpre.mono fun _ _ _ => trivial))).balance x
  refine hmid.induction (I := AttachPhase i k x (s₀.broker.shared.proxy x).inbox.length) ?_ ?_
  · obtain ⟨hpc, hsub⟩ := attached_of_netStep (next_netStep hnext)
    exact .uncounted (by show uncounted (s₁.connection i).handler = true; rw [hpc]; rfl) hsub rfl rfl
  · intro mid s a s' e hrun hphase hK hnext
    have hfull := hpre'.trans hrun
    have hstep := next_netStep hnext
    have hnew : s.nextConnection = i → s.connection i = noConnection := fun hi =>
      noConnection_of_run (hfull.mono fun _ _ _ => trivial) i hi.le
    have htrace : brokerTrace (pre ++ (some (Event.attached i id k)).toList ++ mid) =
        brokerTrace pre ++ brokerTrace mid := by
      rw [brokerTrace, List.filterMap_append, List.filterMap_append]
      show _ ++ [] ++ _ = _
      rw [List.append_nil]
      rfl
    have hx' : Owned (brokerTrace (pre ++ (some (Event.attached i id k)).toList ++ mid)) k x := by
      obtain ⟨t, name, hmem⟩ := hx
      exact ⟨t, name, by rw [htrace]; exact List.mem_append_left _ hmem⟩
    cases hphase with
    | replied r hreply => exact .replied r (List.mem_append_left _ hreply)
    | uncounted hpc hsub hframes hout =>
        obtain ⟨hheld, -, hwait⟩ := waits_of_uncounted hpc (connectionInv_of_run hfull i)
        have hframes' : framesOf (mid ++ e.toList) k = [] := by
          rw [framesOf_append_of_ne (no_frame_while_answering hfull hstep hK (hheld.trans hsub)
            (hwait.imp_right answering_of_counting)), hframes]
        have hout' : handedOut (brokerTrace (mid ++ e.toList)) x = [] := by
          rw [handedOut_append_of_ne
            (no_got_while_counting hfull hstep hK (hheld.trans hsub) hx' hwait), hout]
        rcases uncounted_of_connectionStep (hstep.connectionStep i) hnew hpc with
          ⟨hpc', hsub'⟩ | ⟨b, t, k', count, rfl, hclient, hpc', hb, hctx⟩
        · exact .uncounted hpc' (hsub'.trans hsub) hframes' hout'
        · obtain ⟨rfl, hcount⟩ := count_eq hfull hb hclient hpc' hsub hx'
          refine .counted count t mid [] (by rw [hctx]) (by rw [hctx]; exact hsub) hframes' rfl ?_
          -- Nothing was taken out since the attach, so what came since is in the inbox too.
          have hbalance' := (MessageBroker.inboxInv_of_run
            (brokerRun_of_run (hfull.mono fun _ _ _ => trivial))).balance x
          rw [htrace, handedOut, List.filterMap_append, puts, List.filterMap_append] at hbalance'
          have hlen := congrArg List.length hbalance
          have hlen' := congrArg List.length hbalance'
          have hout₀ : ((brokerTrace mid).filterMap fun e => (gotOf x e).join) = [] := hout
          rw [hout₀] at hlen'
          simp only [List.length_append, List.length_nil] at hlen hlen'
          unfold handedOut puts at hlen
          rw [hcount, puts]
          omega
    | counted m t mid₁ mid₂ hpc hsub hframes hmid hm =>
        have hheld : heldBy (s.connection i) = (s.connection i).subscription :=
          heldBy_eq (by simp [hpc]) (by simp [hpc])
        rcases counted_of_connectionStep (hstep.connectionStep i) hnew hpc with
          ⟨r, rfl⟩ | ⟨hpc', hsub'⟩
        · exact .replied r (by simp)
        · refine .counted m t mid₁ (mid₂ ++ e.toList) hpc' (hsub'.trans hsub) ?_ (by simp [hmid]) hm
          rw [framesOf_append_of_ne (no_frame_while_answering hfull hstep hK (hheld.trans hsub)
            (Or.inr (by rw [hpc]; rfl))), hframes]

/-! ### The whole property -/

end

end

/-! ### An attach to a subscription with one message -/

/-- The first client subscribes and detaches, a message comes, and the second client has sent
`ATTACH 1` up to the end of the line. -/
def attachRequest : List (Action 1) :=
  [.accept] ++ handlerSteps 0 1 ++ handlerLine 0 "AUTH k\n" ++ handlerSteps 0 2 ++
    handlerLine 0 "SUBSCRIBE c\n" ++ handlerSteps 0 1 ++ brokerGo (.client 1) 10 ++
    handlerSteps 0 5 ++ handlerLine 0 "DETACH\n" ++ handlerSteps 0 1 ++ [.receiver 0 .go] ++
    handlerSteps 0 4 ++ publishByte 97 ++
    [.accept] ++ handlerSteps 1 1 ++ handlerLine 1 "AUTH k\n" ++ handlerSteps 1 2 ++
    handlerLine 1 "ATTACH 1"

/-- The end of the line. -/
def endOfLine : Action 1 := .handler 1 (.read (.bytes [10]))

/-- The handler counts and replies. -/
def countAndReply : List (Action 1) :=
  handlerSteps 1 1 ++ brokerGo (.client 4) 2 ++ handlerSteps 1 1

end Miez.Proofs.NetworkServer
