import Miez.Proofs.NetworkServer.Replies
import Miez.Proofs.MessageBroker.Released

/-!
# `Miez.Proofs.NetworkServer.Refused`: a command that is answered with an error

A command is refused when its reply starts with `ERR`. Two handlers can fail in the middle: a
`DETACH` has joined the receiver thread when `_add_detached` finds no memory for its node
(`refused_detach_stops_receiver`), and a `SUBSCRIBE` has put its proxy into the list of the channel
when there is no memory for the subscription (`refused_subscribe_leaves_proxy`). They do not undo
what they have done.

`NotHalfDone` excludes these two failures. All other failures are rolled back, or come first:
`refused_command_changes_nothing`. A handler is `Committed` from the first step that changes
something. It then does not refuse the command any more, so a refused command has taken no such
step.
-/

set_option autoImplicit false

namespace Miez.Proofs.NetworkServer

open Miez.Lib
open Miez.NetworkServer
open Miez.ThreadPool (Tid)
open Miez.Proofs

section
variable {n : Nat}

/-! ### A subscribe in the broker -/

/-- The lists, the inboxes and the subscription objects of the broker are the same. -/
structure SameContents (sh sh' : MessageBroker.Shared n) : Prop where
  lists : ∀ ch, (sh'.channel ch).subscriberProxies = (sh.channel ch).subscriberProxies
  inboxes : ∀ x, (sh'.proxy x).inbox = (sh.proxy x).inbox
  subscriptions : sh'.subscription = sh.subscription

/-- The proxies and the channels that do not exist yet have empty inboxes and lists. -/
structure FreshEmpty (sh : MessageBroker.Shared n) : Prop where
  list : (sh.channel sh.nextChannel).subscriberProxies = []
  inbox : (sh.proxy sh.nextProxy).inbox = []

/-- A subscribe has put its proxy into the list of the channel. -/
def inserted : MessageBroker.Pc → Bool
  | .subscribe _ _ (.unlockChannel _ _) | .subscribe _ _ (.newSubscription _) => true
  | _ => false

/-- The next step of a subscribe allocates the subscription. -/
def atNewSubscription : MessageBroker.Pc → Bool
  | .subscribe _ _ (.newSubscription _) => true
  | _ => false

section
variable {t : Tid n} {sh sh' : MessageBroker.Shared n} {pc pc' : MessageBroker.Pc}
  {e : Option (MessageBroker.Event n)}

/-- Nothing changes. -/
theorem SameContents.refl (sh : MessageBroker.Shared n) : SameContents sh sh :=
  ⟨fun _ => rfl, fun _ => rfl, rfl⟩

/-- The program points of a subscribe and of a publish. -/
theorem pc_of_subscribe_or_pool (h : callOf pc = .subscribe ∨ callOf pc = .pool) :
    (∃ name id p, pc = .subscribe name id p) ∨ (∃ arg, pc = .publish arg) ∨ pc = .inPool := by
  cases pc with
  | subscribe name id p => exact Or.inl ⟨name, id, p, rfl⟩
  | publish arg => exact Or.inr (Or.inl ⟨arg, rfl⟩)
  | inPool => exact Or.inr (Or.inr rfl)
  | unsubscribe k thenFree u => cases thenFree <;> rcases h with h | h <;> cases h
  | _ => rcases h with h | h <;> cases h

/-- A proxy is inserted by a subscribe. -/
theorem callOf_of_inserted (h : inserted pc = true) : callOf pc = .subscribe := by
  cases pc <;> first | rfl | cases h

/-- A step of a subscribe or of a publish puts a proxy into a list, or it leaves the lists, the
inboxes and the subscription objects alone, as long as no proxy has been put into a list. -/
theorem threadFunction_sameContents {move : MessageBroker.Move n}
    (h : MessageBroker.threadFunction t sh pc move = some (.step sh' pc' e))
    (hfresh : FreshEmpty sh) (hcall : callOf pc = .subscribe ∨ callOf pc = .pool)
    (hpc : inserted pc = false) :
    (callOf pc = .subscribe ∧ inserted pc' = true) ∨ SameContents sh sh' := by
  have hlists : (callOf pc = .subscribe ∧ inserted pc' = true) ∨
      ∀ ch, (sh'.channel ch).subscriberProxies = (sh.channel ch).subscriberProxies := by
    cases MessageBroker.threadFunction_listChange h hfresh.list with
    | same hlists hun => exact Or.inr hlists
    | insertLast name id ch x hpc hpc' hsh =>
        rw [hpc, hpc']
        exact Or.inl ⟨rfl, rfl⟩
    | unlink k thenFree ch i hpc hpc' hsh =>
        rw [hpc] at hcall
        cases thenFree <;> rcases hcall with hcall | hcall <;> cases hcall
  have hinbox := MessageBroker.threadFunction_inboxStep h hfresh.inbox
  refine hlists.imp id fun hsame => ?_
  rcases pc_of_subscribe_or_pool hcall with ⟨name, id, p, rfl⟩ | ⟨arg, rfl⟩ | rfl
  · have hsub : sh'.subscription = sh.subscription ∧ ∀ x msg, e ≠ some (.put t x msg) := by
      rcases MessageBroker.threadFunction_cases h with hstep | ⟨hstep, -⟩
      · cases hstep with
        | subscribeMore hg | subscribeFound hg =>
            exact ⟨by cases hg <;> rfl, fun x msg he => (by cases he)⟩
        | newSubscription x => cases hpc
        | _ => exact ⟨rfl, fun x msg he => (by cases he)⟩
      · cases hstep with
        | subscribeMore hg | subscribeFailed hg =>
            exact ⟨by cases hg <;> rfl, fun x msg he => (by cases he)⟩
        | _ => exact ⟨rfl, fun x msg he => (by cases he)⟩
    refine ⟨hsame, ?_, hsub.1⟩
    cases hinbox with
    | keep hinbox hput hgot => exact hinbox
    | put x msg hx he hinbox => exact absurd he (hsub.2 x msg)
    | got k x tryReceive hpc he hinbox => cases hpc
  · -- a publish that fails before it has submitted its task
    rcases MessageBroker.threadFunction_cases h with hstep | ⟨hstep, -⟩ <;> cases hstep
    exact .refl sh
  · rcases MessageBroker.threadFunction_cases h with hstep | ⟨hstep, -⟩ <;> cases hstep

/-- A subscribe that has put its proxy into the list goes on, or it returns its subscription, if
there is memory for it. -/
theorem subscribed_of_inserted {move : MessageBroker.Move n}
    (h : MessageBroker.threadFunction t sh pc move = some (.step sh' pc' e))
    (hpc : inserted pc = true) (hmove : move = .fail → atNewSubscription pc = false) :
    inserted pc' = true ∨ (pc' = .idle ∧ ∃ k x name, e = some (.subscribed t k x name)) := by
  rcases MessageBroker.threadFunction_cases h with hstep | ⟨hstep, hfail⟩
  · cases hstep with
    | subscribeUnlock ch x => exact Or.inl rfl
    | newSubscription x => exact Or.inr ⟨rfl, _, _, _, rfl⟩
    | _ => cases hpc
  · cases hstep with
    | newSubscription x =>
        rcases hfail with hfail | rfl | hfail
        · cases hmove hfail
        · cases h
        · cases hfail
    | _ => cases hpc

/-- A step inside the broker by a thread that is in a subscribe or in a publish. -/
theorem next_sameContents {b b' : MessageBroker.State n} {a : MessageBroker.Action n}
    (h : MessageBroker.next b a = some (b', e)) (hfresh : FreshEmpty b.shared)
    (hcall : callOf (b.pc (actor a)) = .subscribe ∨ callOf (b.pc (actor a)) = .pool)
    (hpc : inserted (b.pc (actor a)) = false) :
    (callOf (b.pc (actor a)) = .subscribe ∧ inserted (b'.pc (actor a)) = true) ∨
      SameContents b.shared b'.shared := by
  rcases MessageBroker.next_cases h with ⟨pa, pool, t, pc, e', -, -, -, -, -, rfl⟩ |
      ⟨t, move, sh, pc, rfl, hf, rfl⟩ | ⟨t, -, rfl⟩
  · exact Or.inr (.refl _)
  · show (callOf (b.pc t) = .subscribe ∧ inserted (Function.update b.pc t pc t) = true) ∨ _
    rw [Function.update_self]
    exact threadFunction_sameContents hf hfresh hcall hpc
  · exact Or.inr (.refl _)

/-- A step inside the broker by a thread that has put its proxy into the list. -/
theorem next_inserted {b b' : MessageBroker.State n} {a : MessageBroker.Action n}
    (h : MessageBroker.next b a = some (b', e)) (hpc : inserted (b.pc (actor a)) = true)
    (hmove : ∀ t, a = .thread t .fail → atNewSubscription (b.pc t) = false) :
    inserted (b'.pc (actor a)) = true ∨
      (b'.pc (actor a) = .idle ∧ ∃ k x name, e = some (.subscribed (actor a) k x name)) := by
  rcases MessageBroker.next_cases h with ⟨pa, pool, t, pc, e', hpa, hstep, -, hold, -, rfl⟩ |
      ⟨t, move, sh, pc, rfl, hf, rfl⟩ | ⟨t, -, rfl⟩
  · have hactor : actor a = t := by
      cases hstep with
      | dispatcher hidle hf => exact (actor_of_poolAction hpa).1 _ rfl
      | client hf hpc => exact (actor_of_poolAction hpa).2 _ _ rfl
    rw [hactor] at hpc
    rcases MessageBroker.inCall_cases hold with hcall | ⟨arg, hcall⟩ | hcall | ⟨arg, hcall⟩ <;>
      rw [hcall] at hpc <;> cases hpc
  · show inserted (Function.update b.pc t pc t) = true ∨ (Function.update b.pc t pc t = _ ∧ _)
    rw [Function.update_self]
    exact subscribed_of_inserted hf hpc fun hfail => hmove t (by rw [hfail])
  · exact Or.inl hpc

end

/-! ### The steps of one handler -/

/-- The step is taken by the handler of the connection `i`, in the server or inside the broker. -/
def ofHandler (i : Nat) : Action n → Prop
  | .handler j _ => j = i
  | .broker a => clientNumber a = some (Client.handler i).number
  | _ => False

/-- The step is none of the two failures that leave a command of the connection `i` half done: the
allocation of the node in `_add_detached`, and the allocation of the subscription at the end of
`message_broker_subscribe`. -/
def NotHalfDone (i : Nat) (s : State n) : Action n → Prop
  | .handler j .fail => j = i → (s.connection i).handler ≠ .addDetached
  | .broker (.thread t .fail) =>
      t = .client (Client.handler i).number → atNewSubscription (s.broker.pc t) = false
  | _ => True

/-- The connections have the same subscription and flag, and both or none have a receiver
thread. -/
structure SameConnection (ctx ctx' : Connection) : Prop where
  subscription : ctx'.subscription = ctx.subscription
  active : ctx'.active = ctx.active
  receiver : ctx'.receiver = .absent ↔ ctx.receiver = .absent

/-- The registry and what the broker holds are the same. -/
structure SameShared (s s' : State n) : Prop where
  registry : s'.detachedSubscriptions = s.detachedSubscriptions
  contents : SameContents s.broker.shared s'.broker.shared

/-- What a step of the server is for the handler of the connection `i`. -/
inductive HandlerChange (apiKey : Option CString) (s s' : State n) (i : Nat) :
    Action n → Option (Event n) → Prop where
  | other {a : Action n} {e : Option (Event n)} (ha : ¬ ofHandler i a)
      (hpc : (s'.connection i).handler = (s.connection i).handler ∨
        (s.connection i).handler = .absent ∧ (s'.connection i).handler = .testRunning)
      (hctx : SameConnection (s.connection i) (s'.connection i))
      (hbroker : s'.broker.pc (.client (Client.handler i).number) =
        s.broker.pc (.client (Client.handler i).number)) :
      HandlerChange apiKey s s' i a e
  | step {move : Move} {e : Option (Event n)}
      (h : HandlerStep apiKey i s.running s.broker.shared s.detachedSubscriptions (s.connection i)
        move (.step (s'.connection i) s'.detachedSubscriptions e))
      (hbroker : s'.broker = s.broker) : HandlerChange apiKey s s' i (.handler i move) e
  | call {move : Move} {call : MessageBroker.Move n} {e : Option (MessageBroker.Event n)}
      (h : HandlerStep apiKey i s.running s.broker.shared s.detachedSubscriptions (s.connection i)
        move (.call (s'.connection i) call))
      (hregistry : s'.detachedSubscriptions = s.detachedSubscriptions)
      (hb : MessageBroker.next s.broker (callAction (.handler i) call) = some (s'.broker, e)) :
      HandlerChange apiKey s s' i (.handler i move) (e.map (callEvent i (s.connection i)))
  | inside {b : MessageBroker.Action n} {e : Option (MessageBroker.Event n)}
      (hctx : (s'.connection i = s.connection i ∧
          s'.broker.pc (.client (Client.handler i).number) ≠ .idle) ∨
        (s'.connection i = handlerReturn (s.connection i) e ∧
          s'.broker.pc (.client (Client.handler i).number) = .idle))
      (hregistry : s'.detachedSubscriptions = s.detachedSubscriptions)
      (hinside : isInside s.broker b = true)
      (hb : MessageBroker.next s.broker b = some (s'.broker, e))
      (hclient : clientNumber b = some (Client.handler i).number) :
      HandlerChange apiKey s s' i (.broker b) (e.map .broker)

/-- Nothing changes. -/
theorem SameConnection.refl (ctx : Connection) : SameConnection ctx ctx := ⟨rfl, rfl, Iff.rfl⟩

/-- Two changes after each other. -/
theorem SameConnection.trans {ctx ctx' ctx'' : Connection} (h : SameConnection ctx ctx')
    (h' : SameConnection ctx' ctx'') : SameConnection ctx ctx'' :=
  ⟨h'.subscription.trans h.subscription, h'.active.trans h.active, h'.receiver.trans h.receiver⟩

/-- A step of a receiver leaves the pointer and the flag alone. -/
theorem ReceiverStep.sameConnection {i : Nat} {registry : List Detached} {ctx : Connection}
    {move : Move} {o : Outcome n} (h : ReceiverStep i registry ctx move o) :
    (∀ ctx' registry' e, o = .step ctx' registry' e →
      ctx'.handler = ctx.handler ∧ SameConnection ctx ctx') ∧
    (∀ ctx' call, o = .call ctx' call →
      ctx'.handler = ctx.handler ∧ SameConnection ctx ctx') := by
  have hstays := h.stays i
  cases h with
  | callReceive hpc =>
      refine ⟨fun _ _ _ h => (by cases h), ?_⟩
      intro ctx' call heq
      have habsent := hstays.2 _ _ heq
      cases heq
      exact ⟨rfl, rfl, rfl, habsent⟩
  | _ =>
      refine ⟨?_, fun _ _ h => (by cases h)⟩
      intro ctx' registry' e heq
      have habsent := (hstays.1 _ _ _ heq).2
      cases heq
      exact ⟨rfl, rfl, rfl, habsent⟩

/-- The return of a receiver leaves the pointer and the flag alone. -/
theorem receiverReturn_sameConnection (ctx : Connection) (e : Option (MessageBroker.Event n)) :
    SameConnection ctx (receiverReturn ctx e) := by
  refine ⟨(receiverReturn_fields ctx e).2, ?_, receiverReturn_absent_iff ctx e⟩
  unfold receiverReturn
  split <;> rfl

/-- Every step is one of the listed steps for a handler. -/
theorem NetStep.handlerChange {apiKey : Option CString} {s s' : State n} {a : Action n}
    {e : Option (Event n)} (h : NetStep apiKey s a s' e)
    (hno : s.connection s.nextConnection = noConnection) (i : Nat) :
    HandlerChange apiKey s s' i a e := by
  have hself : ∀ {j : Nat} {ctx : Connection}, i = j →
      Function.update s.connection j ctx i = ctx := by
    rintro j ctx rfl
    exact Function.update_self ..
  have hother : ∀ {j : Nat} {ctx : Connection}, i ≠ j →
      Function.update s.connection j ctx i = s.connection i :=
    fun hij => Function.update_of_ne hij ..
  -- a step of another thread that leaves the connection alone
  have hsame : ∀ {a : Action n} {e : Option (Event n)}, ¬ ofHandler i a →
      s'.connection i = s.connection i →
      s'.broker.pc (.client (Client.handler i).number) =
        s.broker.pc (.client (Client.handler i).number) → HandlerChange apiKey s s' i a e := by
    intro a e ha hctx hpc
    refine .other ha ?_ ?_ hpc <;> rw [hctx]
    · exact Or.inl rfl
    · exact .refl _
  have hnumber : ∀ {client : Client}, client ≠ .handler i →
      ∀ {b : MessageBroker.Action n} {b' : MessageBroker.State n} {e},
        actor b = .client client.number → MessageBroker.next s.broker b = some (b', e) →
        b'.pc (.client (Client.handler i).number) =
          s.broker.pc (.client (Client.handler i).number) := by
    intro client hne b b' e hactor hb
    refine pc_of_ne_actor hb ?_
    rw [hactor]
    exact fun heq => hne (number_injective (Tid.client.inj heq)).symm
  cases h with
  | accept hrunning =>
      by_cases hij : i = s.nextConnection
      · subst hij
        refine .other id ?_ ?_ rfl
        · exact Or.inr ⟨by rw [hno]; rfl, congrArg Connection.handler (hself rfl)⟩
        · show SameConnection _ (Function.update s.connection _ newConnection s.nextConnection)
          rw [hself rfl, hno]
          exact ⟨rfl, rfl, Iff.rfl⟩
      · exact hsame id (hother hij) rfl
  | @handler j move ctx registry e h =>
      by_cases hij : i = j
      · subst hij
        refine .step ?_ rfl
        show HandlerStep apiKey i _ _ _ _ move (.step (Function.update s.connection i ctx i) _ e)
        rw [hself rfl]
        exact clientHandler_step rfl h
      · exact hsame (fun heq => hij heq.symm) (hother hij) rfl
  | @handlerCall j move ctx call b e h hb =>
      by_cases hij : i = j
      · subst hij
        refine .call ?_ rfl hb
        show HandlerStep apiKey i _ _ _ _ move (.call (Function.update s.connection i ctx i) call)
        rw [hself rfl]
        exact clientHandler_step rfl h
      · refine hsame (fun heq => hij heq.symm) (hother hij) (hnumber ?_ rfl hb)
        exact fun heq => hij (Client.handler.inj heq).symm
  | @receiver j move ctx registry e h =>
      have hctx := (subscriberReceiverThread_step h).sameConnection.1 _ _ _ rfl
      by_cases hij : i = j
      · subst hij
        refine .other id ?_ ?_ rfl
        · exact Or.inl ((congrArg Connection.handler (hself rfl)).trans hctx.1)
        · show SameConnection _ (Function.update s.connection i ctx i)
          rw [hself rfl]
          exact hctx.2
      · exact hsame id (hother hij) rfl
  | @receiverCall j move ctx call b e h hb =>
      have hctx := (subscriberReceiverThread_step h).sameConnection.2 _ _ rfl
      have hpc := hnumber (by simp) rfl hb
      by_cases hij : i = j
      · subst hij
        refine .other id ?_ ?_ hpc
        · exact Or.inl ((congrArg Connection.handler (hself rfl)).trans hctx.1)
        · show SameConnection _ (Function.update s.connection i ctx i)
          rw [hself rfl]
          exact hctx.2
      · exact hsame id (hother hij) hpc
  | stop | freeStart | freeEnd => exact hsame id rfl rfl
  | freeUnsubscribe hmain hcons hb | freeFree hmain hcons hb =>
      exact hsame id rfl (hnumber (by simp) rfl hb)
  | publish hb => exact hsame id rfl (hnumber (by simp) rfl hb)
  | @inside a b e hinside hb hstay =>
      by_cases hclient : clientNumber a = some (Client.handler i).number
      · exact .inside (Or.inl ⟨rfl, hstay _ hclient⟩) rfl hinside hb hclient
      · refine hsame hclient rfl (pc_of_ne_actor hb ?_)
        exact fun heq => hclient (actor_of_clientNumber.mp heq.symm)
  | @back a client b e hinside hb hclient hidle =>
      have hactor := actor_of_clientNumber.mpr hclient
      have hof : ∀ {client' : Client}, client ≠ client' → clientNumber a ≠ some client'.number := by
        intro client' hne heq
        exact hne (number_injective (Option.some.inj (hclient.symm.trans heq)))
      cases client with
      | handler j =>
          by_cases hij : i = j
          · subst hij
            exact .inside (Or.inr ⟨hself rfl, hidle⟩) rfl hinside hb hclient
          · have hne : Client.handler j ≠ .handler i := fun heq => hij (Client.handler.inj heq).symm
            exact hsame (hof hne) (hother hij) (hnumber hne hactor hb)
      | receiver j =>
          have hpc := hnumber (by simp) hactor hb
          by_cases hij : i = j
          · subst hij
            refine .other (hof (by simp)) ?_ ?_ hpc
            · exact Or.inl ((congrArg Connection.handler (hself rfl)).trans
                (receiverReturn_fields ..).1)
            · show SameConnection _ (Function.update s.connection i (receiverReturn _ e) i)
              rw [hself rfl]
              exact receiverReturn_sameConnection ..
          · exact hsame (hof (by simp)) (hother hij) hpc
      | publisher j => exact hsame (hof (by simp)) rfl (hnumber (by simp) hactor hb)
      | main =>
          refine hsame (hof (by simp)) (congrFun (returnTo_main_connection _ e) i) ?_
          rw [returnTo_broker]
          exact hnumber (by simp) hactor hb

/-! ### Commands that are not refused any more -/

/-- The handler has started to change something, or it has left its loop: the next reply is no
error. -/
def commits : HandlerPc → Bool
  | .activate _ | .createReceiver _ | .getId | .callPending | .pendingCount | .deactivate
  | .joinDetach | .addDetached | .linkDetached _ | .detachGetId | .leave | .joinLeave
  | .callUnsubscribe | .unsubscribing | .callFree | .freeing | .closed | .faulted => true
  | .reply (.err _) _ => false
  | .reply _ _ => true
  | _ => false

/-- The handler commits itself to its command, or its subscribe has inserted the proxy. -/
def Committed (s : State n) (i : Nat) : Prop :=
  commits (s.connection i).handler = true ∨
    ((s.connection i).handler = .subscribing ∧
      inserted (s.broker.pc (.client (Client.handler i).number)) = true)

section
variable {apiKey : Option CString} {i : Nat} {running : Bool} {sh : MessageBroker.Shared n}
  {registry registry' : List Detached} {ctx ctx' : Connection} {move : Move}

/-- A handler that commits itself goes on so up to its reply. -/
theorem HandlerStep.stays_committed {e : Option (Event n)}
    (h : HandlerStep apiKey i running sh registry ctx move (.step ctx' registry' e))
    (hc : commits ctx.handler = true)
    (hmove : move = .fail → ctx.handler ≠ .addDetached) :
    commits ctx'.handler = true ∨ ∃ r, e = some (.reply i r) := by
  have hwithId : ∀ pc : UInt64 → HandlerPc, (∀ id, commits (pc id) = true) →
      commits (withId sh ctx pc) = true := by
    intro pc hpc
    unfold withId
    split
    · exact hpc _
    · rfl
  cases h with
  | reply hpc => exact Or.inr ⟨_, rfl⟩
  | getId hpc | addDetached hpc => exact Or.inl (hwithId _ fun id => rfl)
  | addFailed hpc => exact absurd hpc (hmove rfl)
  | @createReceiver attach hpc | @createFailed attach hpc =>
      refine Or.inl ?_
      cases attach <;> rfl
  | leave hpc =>
      refine Or.inl ?_
      show commits (if _ then _ else _) = true
      split <;> rfl
  | activate | deactivate | joinDetach | link | detach | detachFault | joinLeave =>
      exact Or.inl rfl
  | start hpc | stopped hpc | readMore hpc | command hpc | readLeave hpc | readPublish hpc
  | readFailed hpc | notFound hpc | attach hpc | publishFailed hpc =>
      rw [hpc] at hc
      cases hc

/-- A handler that does not commit itself yet takes a subscription from the registry, or it leaves
the registry and its connection alone. -/
theorem HandlerStep.refusable {e : Option (Event n)}
    (h : HandlerStep apiKey i running sh registry ctx move (.step ctx' registry' e))
    (hc : commits ctx.handler = false) :
    commits ctx'.handler = true ∨
      (SameConnection ctx ctx' ∧ registry' = registry) := by
  cases h with
  | command hpc hread =>
      obtain ⟨hsub, hactive, -, hreceiver⟩ := handleCommand_fields apiKey ctx _
      exact Or.inr ⟨⟨hsub, hactive, by rw [hreceiver]⟩, rfl⟩
  | start | stopped | readMore | readLeave | readPublish | readFailed | reply | notFound
  | publishFailed => exact Or.inr ⟨⟨rfl, rfl, Iff.rfl⟩, rfl⟩
  | attach => exact Or.inl rfl
  | activate hpc | createReceiver hpc | createFailed hpc | getId hpc | deactivate hpc
  | joinDetach hpc | addDetached hpc | addFailed hpc | link hpc | detach hpc | detachFault hpc
  | leave hpc | joinLeave hpc =>
      rw [hpc] at hc
      cases hc

/-- The return from the broker leaves a handler committed. -/
theorem commits_handlerReturn (e : Option (MessageBroker.Event n)) (h : commits ctx.handler = true) :
    commits (handlerReturn ctx e).handler = true := by
  unfold handlerReturn
  split <;> first
    | exact h
    | rfl
    | (rename_i hpc _; rw [hpc] at h; cases h)

/-- A handler that does not commit itself calls the broker for a subscribe or for a publish. -/
theorem handlerCall_of_not_commits (h : commits ctx.handler = false) :
    handlerCall ctx = .outside ∨ handlerCall ctx = .subscribe ∨ handlerCall ctx = .pool := by
  unfold handlerCall
  split
  · exact Or.inr (Or.inl rfl)
  · exact Or.inr (Or.inr rfl)
  · rename_i hpc
    rw [hpc] at h
    cases h
  · rename_i hpc
    rw [hpc] at h
    cases h
  · rename_i hpc
    rw [hpc] at h
    cases h
  · exact Or.inl rfl

/-- The handler that waits for a subscribe. -/
theorem subscribing_of_handlerCall (h : handlerCall ctx = .subscribe) :
    ctx.handler = .subscribing := by
  unfold handlerCall at h
  split at h
  · assumption
  · cases h
  all_goals first | cases h | (cases hk : ctx.subscription <;> rw [hk] at h <;> cases h)

/-- A handler that is back from the broker commits itself, or it leaves its connection alone. -/
theorem sameConnection_handlerReturn (ctx : Connection) (e : Option (MessageBroker.Event n)) :
    commits (handlerReturn ctx e).handler = true ∨ SameConnection ctx (handlerReturn ctx e) := by
  unfold handlerReturn
  split <;> first
    | exact Or.inr ⟨rfl, rfl, Iff.rfl⟩
    | exact Or.inl rfl

end

section
variable {capacity : UInt64} {hcap : capacity ≠ 0} {apiKey : Option CString}

/-- A committed handler stays committed up to its reply, if no failure leaves its command half
done. -/
theorem HandlerChange.committed {s s' : State n} {i : Nat} {a : Action n} {e : Option (Event n)}
    (h : HandlerChange apiKey s s' i a e) (hK : NotHalfDone i s a) (hc : Committed s i) :
    Committed s' i ∨ ∃ r, e = some (.reply i r) := by
  cases h with
  | other ha hpc hctx hbroker =>
      left
      unfold Committed at hc ⊢
      rcases hpc with hpc | ⟨hpc, -⟩
      · rw [hpc, hbroker]
        exact hc
      · rw [hpc] at hc
        rcases hc with hc | ⟨hc, -⟩ <;> cases hc
  | @step move e hstep hbroker =>
      rcases hc with hc | ⟨hc, -⟩
      · refine (hstep.stays_committed hc ?_).imp_left Or.inl
        rintro rfl
        exact hK rfl
      · generalize s'.connection i = ctx' at hstep
        generalize s'.detachedSubscriptions = registry' at hstep
        cases hstep <;> simp_all
  | call hstep hregistry hb =>
      generalize hctx : s'.connection i = ctx' at hstep
      cases hstep with
      | callPending | callUnsubscribe | callFree => exact Or.inl (Or.inl (by rw [hctx]; rfl))
      | callSubscribe hpc | callPublish hpc =>
          rcases hc with hc | ⟨hc, -⟩ <;> rw [hpc] at hc <;> cases hc
  | @inside b e hctx hregistry hinside hb hclient =>
      left
      rcases hc with hc | ⟨hc, hin⟩
      · rcases hctx with ⟨hctx, -⟩ | ⟨hctx, -⟩
        · exact Or.inl (by rw [hctx]; exact hc)
        · exact Or.inl (by rw [hctx]; exact commits_handlerReturn e hc)
      · have hactor := actor_of_clientNumber.mpr hclient
        rw [← hactor] at hin
        have hinserted := next_inserted hb hin ?_
        · rw [hactor] at hinserted
          rcases hctx with ⟨hctx, hnot⟩ | ⟨hctx, hidle⟩
          · rcases hinserted with hin' | ⟨hidle, -⟩
            · exact Or.inr ⟨by rw [hctx]; exact hc, hin'⟩
            · exact absurd hidle hnot
          · rcases hinserted with hin' | ⟨-, k, x, name, rfl⟩
            · rw [hidle] at hin'
              cases hin'
            · refine Or.inl ?_
              simp only [hctx, handlerReturn, hc]
              rfl
        · rintro t rfl
          exact hK hactor

/-- What a step does to the connection and to the shared state while its handler is not
committed. -/
theorem HandlerChange.refusable {s s' : State n} {i : Nat} {a : Action n} {e : Option (Event n)}
    (h : HandlerChange apiKey s s' i a e) (hfresh : FreshEmpty s.broker.shared)
    (hcall : callOf (s.broker.pc (.client (Client.handler i).number)) = handlerCall (s.connection i))
    (hc : ¬ Committed s i) :
    Committed s' i ∨
      (SameConnection (s.connection i) (s'.connection i) ∧ (ofHandler i a → SameShared s s')) := by
  obtain ⟨hcommits, hinserted⟩ := not_or.mp hc
  have hnot := eq_false_of_ne_true hcommits
  cases h with
  | other ha hpc hctx hbroker => exact Or.inr ⟨hctx, fun hof => absurd hof ha⟩
  | step hstep hbroker =>
      rcases hstep.refusable hnot with hcommits' | ⟨hctx, hregistry⟩
      · exact Or.inl (Or.inl hcommits')
      · exact Or.inr ⟨hctx, fun _ => ⟨hregistry, by rw [hbroker]; exact .refl _⟩⟩
  | @call move call e hstep hregistry hb =>
      right
      generalize hctx : s'.connection i = ctx' at hstep
      have hidle : isCalling (s.connection i).handler = false →
          s.broker.pc (.client (Client.handler i).number) = .idle := by
        intro houtside
        rw [← callOf_eq_outside, hcall, handlerCall_eq_outside houtside]
      cases hstep with
      | callSubscribe hpc | callPublish hpc =>
          refine ⟨⟨rfl, rfl, Iff.rfl⟩, fun _ => ⟨hregistry, ?_⟩⟩
          obtain ⟨sh, pc, hmove, hb'⟩ := next_call rfl (Or.inl (hidle (by rw [hpc]; rfl))) hb
          obtain ⟨rfl, -⟩ := MessageBroker.Outcome.step.inj (Option.some.inj hmove)
          rw [hb']
          exact ⟨fun _ => rfl, fun _ => rfl, rfl⟩
      | callPending hpc | callUnsubscribe hpc | callFree hpc =>
          rw [hpc] at hnot
          cases hnot
  | @inside b e hctx hregistry hinside hb hclient =>
      have hactor := actor_of_clientNumber.mpr hclient
      have houtside : handlerCall (s.connection i) ≠ .outside := by
        rw [← hcall, ne_eq, callOf_eq_outside]
        exact not_idle_of_inside hinside hb hclient
      have hin := (handlerCall_of_not_commits hnot).resolve_left houtside
      rw [← hcall, ← hactor] at hin
      have hsubscribing : callOf (s.broker.pc (actor b)) = .subscribe →
          (s.connection i).handler = .subscribing := by
        rw [hactor, hcall]
        exact subscribing_of_handlerCall
      have hpc : inserted (s.broker.pc (actor b)) = false := by
        refine eq_false_of_ne_true fun hpc => hinserted ⟨hsubscribing ?_, hactor ▸ hpc⟩
        exact callOf_of_inserted hpc
      rcases next_sameContents hb hfresh hin hpc with ⟨hsub, hin'⟩ | hcontents
      · rw [hactor] at hin'
        rcases hctx with ⟨hctx, -⟩ | ⟨-, hidle⟩
        · exact Or.inl (Or.inr ⟨by rw [hctx]; exact hsubscribing hsub, hin'⟩)
        · rw [hidle] at hin'
          cases hin'
      · have hshared : SameShared s s' := ⟨hregistry, hcontents⟩
        rcases hctx with ⟨hctx, -⟩ | ⟨hctx, -⟩
        · rw [hctx]
          exact Or.inr ⟨.refl _, fun _ => hshared⟩
        · rcases sameConnection_handlerReturn (s.connection i) e with hcommits' | hsame
          · exact Or.inl (Or.inl (by rw [hctx]; exact hcommits'))
          · rw [hctx]
            exact Or.inr ⟨hsame, fun _ => hshared⟩

end

/-! ### The receiver of a connection -/

/-- The receiver has not been started, or it is told to run and does. -/
def Served (ctx : Connection) : Prop :=
  ctx.receiver = .absent ∨ (ctx.active = true ∧ isRunning ctx.receiver = true)

/-- Where the receiver of a connection is. It stops only while its handler waits in a join. -/
def ServedInv (ctx : Connection) : Prop :=
  match ctx.handler with
  | .joinDetach | .joinLeave | .closed => True
  | .createReceiver _ => ctx.active = true ∧ ctx.receiver = .absent
  | _ => Served ctx

section
variable {ctx ctx' : Connection} {registry registry' : List Detached} {i : Nat} {move : Move}

/-- `ServedInv` at a program point where no receiver is started. -/
theorem servedInv_of_served (h : Served ctx) (hpc : ∀ attach, ctx.handler ≠ .createReceiver attach) :
    ServedInv ctx := by
  unfold ServedInv
  split
  · trivial
  · trivial
  · trivial
  · exact absurd ‹_› (hpc _)
  · exact h

/-- `Served` at a program point outside the joins. -/
theorem ServedInv.served (h : ServedInv ctx) (hdetach : ctx.handler ≠ .joinDetach)
    (hleave : ctx.handler ≠ .joinLeave) (hclosed : ctx.handler ≠ .closed) : Served ctx := by
  unfold ServedInv at h
  split at h
  · exact absurd ‹_› hdetach
  · exact absurd ‹_› hleave
  · exact absurd ‹_› hclosed
  · exact Or.inl h.2
  · exact h

/-- A step of a handler keeps `ServedInv`. -/
theorem HandlerStep.servedInv {apiKey : Option CString} {running : Bool}
    {sh : MessageBroker.Shared n} {e : Option (Event n)}
    (h : HandlerStep apiKey i running sh registry ctx move (.step ctx' registry' e))
    (hinv : ServedInv ctx) (hconn : ConnectionInv ctx) : ServedInv ctx' := by
  unfold ServedInv at hinv
  unfold ConnectionInv at hconn
  have hwithId : ∀ pc : UInt64 → HandlerPc, (∀ id attach, pc id ≠ .createReceiver attach) →
      Served ctx → ServedInv { ctx with handler := withId sh ctx pc } := by
    intro pc hpc hserved
    refine servedInv_of_served hserved fun attach => ?_
    rcases withId_cases sh ctx pc with ⟨id, -, hid⟩ | ⟨-, hid⟩
    · rw [hid]
      exact hpc id attach
    · rw [hid]
      simp
  cases h with
  | command hpc hread =>
      rw [hpc] at hinv
      obtain ⟨-, hactive, -, hreceiver⟩ := handleCommand_fields apiKey ctx _
      refine servedInv_of_served ?_ fun attach => handleCommand_ne rfl
      unfold Served at hinv ⊢
      rw [hactive, hreceiver]
      exact hinv
  | @reply r last hpc =>
      rw [hpc] at hinv
      cases last <;> exact hinv
  | activate hpc =>
      rw [hpc] at hconn
      exact ⟨rfl, hconn.2⟩
  | @createReceiver attach hpc =>
      rw [hpc] at hinv
      cases attach <;> exact Or.inr ⟨hinv.1, rfl⟩
  | @createFailed attach hpc =>
      rw [hpc] at hinv
      cases attach <;> exact Or.inl hinv.2
  | getId hpc | addDetached hpc | addFailed hpc =>
      rw [hpc] at hinv
      exact hwithId _ (fun id attach => by simp) hinv
  | joinDetach | joinLeave => exact Or.inl rfl
  | deactivate => trivial
  | leave hpc =>
      unfold ServedInv
      split_ifs <;> trivial
  | start hpc | stopped hpc | readMore hpc | readLeave hpc | readPublish hpc | readFailed hpc
  | notFound hpc | attach hpc | link hpc | detach hpc | detachFault hpc | publishFailed hpc =>
      rw [hpc] at hinv
      exact hinv

/-- A call of the broker by a handler keeps `ServedInv`. -/
theorem HandlerStep.servedInv_call {apiKey : Option CString} {running : Bool}
    {sh : MessageBroker.Shared n} {call : MessageBroker.Move n}
    (h : HandlerStep apiKey i running sh registry ctx move (.call ctx' call))
    (hinv : ServedInv ctx) : ServedInv ctx' := by
  unfold ServedInv at hinv
  cases h with
  | callSubscribe hpc | callPublish hpc | callPending hpc | callUnsubscribe hpc | callFree hpc =>
      rw [hpc] at hinv
      exact hinv

/-- The return of a handler from the broker keeps `ServedInv`. -/
theorem ServedInv.handlerReturn (hinv : ServedInv ctx) (e : Option (MessageBroker.Event n)) :
    ServedInv (handlerReturn ctx e) := by
  have hinv' := hinv
  unfold ServedInv at hinv'
  unfold Miez.NetworkServer.handlerReturn
  split
  · rename_i hpc
    rw [hpc] at hinv'
    exact hinv'
  · rename_i hpc _
    rw [hpc] at hinv'
    exact hinv'
  · rename_i hpc
    rw [hpc] at hinv'
    exact hinv'
  · rename_i hpc
    rw [hpc] at hinv'
    exact hinv'
  · rename_i hpc _
    rw [hpc] at hinv'
    exact hinv'
  · rename_i hpc
    rw [hpc] at hinv'
    exact hinv'
  · trivial
  · exact hinv

/-- A receiver that runs on keeps `ServedInv`. -/
theorem ServedInv.setReceiver (hinv : ServedInv ctx) {pc : ReceiverPc}
    (hreceiver : ctx.receiver ≠ .absent) (hrunning : ctx.active = true → isRunning pc = true) :
    ServedInv { ctx with receiver := pc } := by
  unfold ServedInv at hinv ⊢
  cases hpc : ctx.handler with
  | joinDetach | joinLeave | closed => trivial
  | createReceiver attach =>
      rw [hpc] at hinv
      exact absurd hinv.2 hreceiver
  | _ =>
      rw [hpc] at hinv
      obtain ⟨hactive, -⟩ := hinv.resolve_left hreceiver
      exact Or.inr ⟨hactive, hrunning hactive⟩

/-- A step of a receiver keeps `ServedInv`. -/
theorem ReceiverStep.servedInv {o : Outcome n} (h : ReceiverStep i registry ctx move o)
    (hinv : ServedInv ctx) :
    (∀ ctx' registry' e, o = .step ctx' registry' e → ServedInv ctx') ∧
    (∀ ctx' call, o = .call ctx' call → ServedInv ctx') := by
  cases h with
  | exit hpc hactive =>
      refine ⟨?_, fun _ _ ho => by cases ho⟩
      intro ctx' registry' e ho
      cases ho
      refine hinv.setReceiver (by rw [hpc]; simp) fun h => ?_
      rw [hactive] at h
      cases h
  | goOn hpc _ | malloc hpc | mallocFailed hpc | write hpc _ | writeFailed hpc | sleep hpc =>
      refine ⟨?_, fun _ _ ho => by cases ho⟩
      intro ctx' registry' e ho
      cases ho
      exact hinv.setReceiver (by rw [hpc]; simp) fun _ => rfl
  | callReceive hpc hk =>
      refine ⟨fun _ _ _ ho => (by cases ho), ?_⟩
      intro ctx' call ho
      cases ho
      exact hinv.setReceiver (by rw [hpc]; simp) fun _ => rfl

/-- The return of a receiver from the broker keeps `ServedInv`. -/
theorem ServedInv.receiverReturn (hinv : ServedInv ctx) (e : Option (MessageBroker.Event n)) :
    ServedInv (receiverReturn ctx e) := by
  unfold Miez.NetworkServer.receiverReturn
  split
  · rename_i hpc
    exact hinv.setReceiver (by rw [hpc]; simp) fun _ => rfl
  · rename_i hpc _
    exact hinv.setReceiver (by rw [hpc]; simp) fun _ => rfl
  · exact hinv

end

section
variable {capacity : UInt64} {hcap : capacity ≠ 0} {apiKey : Option CString}

/-- `ServedInv` holds of every connection in every state of a run. -/
theorem servedInv_of_run {K : State n → Action n → Prop} {tr : List (Event n)} {s : State n}
    (h : (machine n capacity hcap apiKey).RunIf K tr s) (i : Nat) : ServedInv (s.connection i) := by
  have hinit : ServedInv noConnection := Or.inl rfl
  refine h.induction (I := fun _ s => ServedInv (s.connection i)) hinit ?_
  intro tr s a s' e hrun hinv _ hnext
  cases (next_netStep hnext).connectionStep i with
  | same hctx he =>
      rw [hctx]
      exact hinv
  | accept hi hctx hbroker =>
      rw [hctx]
      exact Or.inl rfl
  | handler hstep hbroker => exact hstep.servedInv hinv (connectionInv_of_run hrun i)
  | handlerCall hstep hb => exact hstep.servedInv_call hinv
  | receiver hstep hbroker => exact (hstep.servedInv hinv).1 _ _ _ rfl
  | receiverCall hstep hb => exact (hstep.servedInv hinv).2 _ _ rfl
  | handlerReturn hctx =>
      rw [hctx]
      exact hinv.handlerReturn _
  | receiverReturn hctx =>
      rw [hctx]
      exact hinv.receiverReturn _

/-- Outside the joins a receiver that has been started runs. -/
theorem Served.running_iff {ctx : Connection} (h : Served ctx) :
    isRunning ctx.receiver = true ↔ ctx.receiver ≠ .absent := by
  constructor
  · intro hrunning habsent
    rw [habsent] at hrunning
    cases hrunning
  · intro hreceiver
    exact (h.resolve_left hreceiver).2

/-! ### Runs from a command to its reply -/

/-- What does not exist yet is empty in every state of a run. -/
theorem freshEmpty_of_run {tr : List (Event n)} {s : State n}
    (h : (machine n capacity hcap apiKey).Run tr s) : FreshEmpty s.broker.shared := by
  have hbroker := brokerRun_of_run h
  refine ⟨?_, (MessageBroker.inboxInv_of_run hbroker).fresh _ le_rfl⟩
  rw [List.eq_nil_iff_forall_not_mem]
  exact fun x hx => lt_irrefl _ ((MessageBroker.nameInv_of_run hbroker).listed _ x hx)

/-- What a step of a run is for a handler. -/
theorem handlerChange_of_run {tr : List (Event n)} {s s' : State n} {a : Action n}
    {e : Option (Event n)} (h : (machine n capacity hcap apiKey).Run tr s)
    (hnext : next apiKey s a = some (s', e)) (i : Nat) : HandlerChange apiKey s s' i a e :=
  (next_netStep hnext).handlerChange (noConnection_of_run h _ le_rfl) i

/-- A step of a run while the handler is not committed. -/
theorem refusable_of_run {tr : List (Event n)} {s s' : State n} {a : Action n}
    {e : Option (Event n)} (h : (machine n capacity hcap apiKey).Run tr s)
    (hnext : next apiKey s a = some (s', e)) {i : Nat} (hc : ¬ Committed s i) :
    Committed s' i ∨
      (SameConnection (s.connection i) (s'.connection i) ∧ (ofHandler i a → SameShared s s')) :=
  (handlerChange_of_run h hnext i).refusable (freshEmpty_of_run h) (callInv_of_run h (.handler i)) hc

/-- A committed handler stays committed in a run without a reply. -/
theorem committed_of_run {pre : List (Event n)} {s₁ : State n}
    (h₁ : (machine n capacity hcap apiKey).Run pre s₁) {i : Nat} {mid : List (Event n)}
    {s : State n} (h : ((machine n capacity hcap apiKey).startAt s₁).RunIf (NotHalfDone i) mid s)
    (hfirst : ∀ r, .reply i r ∉ mid) (hc : Committed s₁ i) : Committed s i := by
  have hstays : (∀ r, .reply i r ∉ mid) → Committed s i := by
    refine h.induction (I := fun mid s => (∀ r, .reply i r ∉ mid) → Committed s i)
      (fun _ => hc) ?_
    intro mid s a s' e hmid ih hK hnext hfirst
    have hrun := h₁.trans (hmid.mono fun _ _ _ => trivial)
    have hold := ih fun r hr => hfirst r (List.mem_append_left _ hr)
    rcases (handlerChange_of_run hrun hnext i).committed hK hold with hnew | ⟨r, rfl⟩
    · exact hnew
    · exact absurd (List.mem_append_right _ (List.mem_singleton_self _)) (hfirst r)
  exact hstays hfirst

/-- The step is not half done, and it leaves `view` alone if another thread takes it. -/
def OthersKeep (apiKey : Option CString) {α : Type} (view : State n → α) (i : Nat) (s : State n)
    (a : Action n) : Prop :=
  NotHalfDone i s a ∧
    (¬ ofHandler i a → ∀ s' e, next apiKey s a = some (s', e) → view s' = view s)

/-- What is left of a command before its reply. Either its handler is committed, or the command has
changed nothing. -/
theorem unchanged_of_run {α : Type} {view : State n → α}
    (hview : ∀ u u', SameShared u u' → view u' = view u) {pre : List (Event n)} {s₁ : State n}
    (h₁ : (machine n capacity hcap apiKey).Run pre s₁) {i : Nat} {mid : List (Event n)}
    {s : State n}
    (h : ((machine n capacity hcap apiKey).startAt s₁).RunIf (OthersKeep apiKey view i) mid s)
    (hfirst : ∀ r, .reply i r ∉ mid) :
    Committed s i ∨ (SameConnection (s₁.connection i) (s.connection i) ∧ view s = view s₁) := by
  have hphase : (∀ r, .reply i r ∉ mid) → Committed s i ∨
      (SameConnection (s₁.connection i) (s.connection i) ∧ view s = view s₁) := by
    refine h.induction (I := fun mid s => (∀ r, .reply i r ∉ mid) → Committed s i ∨
      (SameConnection (s₁.connection i) (s.connection i) ∧ view s = view s₁))
      (fun _ => Or.inr ⟨.refl _, rfl⟩) ?_
    intro mid s a s' e hmid ih hK hnext hfirst
    have hrun := h₁.trans (hmid.mono fun _ _ _ => trivial)
    rcases ih fun r hr => hfirst r (List.mem_append_left _ hr) with hc | ⟨hsame, hold⟩
    · left
      rcases (handlerChange_of_run hrun hnext i).committed hK.1 hc with hnew | ⟨r, rfl⟩
      · exact hnew
      · exact absurd (List.mem_append_right _ (List.mem_singleton_self _)) (hfirst r)
    · by_cases hc : Committed s i
      · left
        rcases (handlerChange_of_run hrun hnext i).committed hK.1 hc with hnew | ⟨r, rfl⟩
        · exact hnew
        · exact absurd (List.mem_append_right _ (List.mem_singleton_self _)) (hfirst r)
      · refine (refusable_of_run hrun hnext hc).imp_right fun ⟨hsame', hshared⟩ => ?_
        refine ⟨hsame.trans hsame', ?_⟩
        by_cases hof : ofHandler i a
        · rw [hview _ _ (hshared hof), hold]
        · rw [hK.2 hof _ _ hnext, hold]
  exact hphase hfirst

/-- A handler with an error to write is not committed. -/
theorem not_committed_of_error {s : State n} {i : Nat} {error : Error} {last : Bool}
    (h : (s.connection i).handler = .reply (.err error) last) : ¬ Committed s i := by
  unfold Committed
  rw [h]
  rintro (hc | ⟨hc, -⟩) <;> cases hc

/-- A command or a reply is a step of its handler. -/
theorem ofHandler_of_event {s s' : State n} {a : Action n} {x : Event n} {i : Nat}
    (h : next apiKey s a = some (s', some x)) (hx : handlerEvent x = some i) : ofHandler i a := by
  obtain ⟨move, rfl, -⟩ := handlerStep_of_event (next_netStep h) hx
  exact rfl

/-- A reply changes the program point of its handler only. -/
theorem sameShared_of_reply {s s' : State n} {a : Action n} {i : Nat} {r : Reply}
    (h : HandlerChange apiKey s s' i a (some (.reply i r))) (ha : ofHandler i a) :
    SameShared s s' ∧ ∃ last : Bool, s'.connection i =
      { s.connection i with handler := if last then .leave else .testRunning } := by
  generalize he : some (Event.reply i r) = e at h
  cases h with
  | other hother => exact absurd ha hother
  | step hstep hbroker =>
      subst he
      generalize s'.connection i = ctx' at hstep ⊢
      generalize hregistry : s'.detachedSubscriptions = registry' at hstep
      cases hstep with
      | @reply r last hpc =>
          exact ⟨⟨hregistry, by rw [hbroker]; exact .refl _⟩, last, rfl⟩
  | call =>
      obtain ⟨y, -, hy⟩ := Option.map_eq_some_iff.mp he.symm
      unfold callEvent at hy
      split at hy <;> cases hy
  | inside =>
      obtain ⟨y, -, hy⟩ := Option.map_eq_some_iff.mp he.symm
      cases hy

end

instance (i : Nat) (a : Action n) : Decidable (ofHandler i a) :=
  match a with
  | .handler j _ => inferInstanceAs (Decidable (j = i))
  | .broker b => inferInstanceAs (Decidable (clientNumber b = some (Client.handler i).number))
  | .accept | .receiver _ _ | .stop | .free | .publish _ _ _ => .isFalse id

instance (i : Nat) (s : State n) (a : Action n) : Decidable (NotHalfDone i s a) := by
  unfold NotHalfDone
  induction a using NetworkServer.Action.casesOn with
  | handler j move => induction move using NetworkServer.Move.casesOn <;> infer_instance
  | broker b =>
      induction b using MessageBroker.Action.casesOn with
      | thread t move => induction move using MessageBroker.Move.casesOn <;> infer_instance
      | _ => infer_instance
  | _ => infer_instance

end

/-! ### Three refused commands -/

/-- The first client has authenticated itself. -/
def authenticate : List (Action 1) :=
  [.accept] ++ handlerSteps 0 1 ++ handlerLine 0 "AUTH k\n" ++ handlerSteps 0 2

/-- The first client has subscribed and sent `DETACH` up to the end of the line. -/
def detachRequest : List (Action 1) :=
  authenticate ++ handlerLine 0 "SUBSCRIBE c\n" ++ handlerSteps 0 1 ++ brokerGo (.client 1) 10 ++
    handlerSteps 0 5 ++ handlerLine 0 "DETACH"

/-- There is no memory for the subscription: the client reads an error, but the proxy of the
subscribe stays in the list of its channel. -/
theorem refused_subscribe_leaves_proxy :
    ∃ pre s s₁ mid s₂ s₃, (machine 1 4 (by decide) none).Run pre s ∧
      next none s (.handler 0 (.read (.bytes [10]))) =
        some (s₁, some (.command 0 (Stdio.ascii "SUBSCRIBE c"))) ∧
      ((machine 1 4 (by decide) none).startAt s₁).Run mid s₂ ∧
      next none s₂ (.handler 0 .go) = some (s₃, some (.reply 0 (.err .failedToSubscribe))) ∧
      (s₃.connection 0).subscription = none ∧
      (s.broker.shared.channel 0).subscriberProxies = [] ∧
      (s₃.broker.shared.channel 0).subscriberProxies = [0] := by
  obtain ⟨pre, s, s₁, e, mid, s₂, hpre, -, hcommand, hmid, hp⟩ :=
    Machine.runIf_step_of_exec (M := machine 1 4 (by decide) none) (K := fun _ _ => True)
      (C := fun _ _ => True) (authenticate ++ handlerLine 0 "SUBSCRIBE c")
      (.handler 0 (.read (.bytes [10])))
      (handlerSteps 0 1 ++ brokerGo (.client 1) 9 ++ [.broker (.thread (.client 1) .fail)])
      (fun _ s e _ s₂ => decide (e = some (.command 0 (Stdio.ascii "SUBSCRIBE c")) ∧
        (s.broker.shared.channel 0).subscriberProxies = [] ∧
        (next none s₂ (.handler 0 .go)).any (fun r => decide (r.2 = some (.reply 0
          (.err .failedToSubscribe)) ∧ (r.1.connection 0).subscription = none ∧
          (r.1.broker.shared.channel 0).subscriberProxies = [0])) = true))
      (by decide +kernel)
  obtain ⟨rfl, hempty, hany⟩ := of_decide_eq_true hp
  obtain ⟨⟨s₃, e⟩, hreply, htest⟩ := (Option.any_eq_true _ _).mp hany
  obtain ⟨rfl, hsub, hlist⟩ := of_decide_eq_true htest
  exact ⟨pre, s, s₁, mid, s₂, s₃, hpre, hcommand, hmid, hreply, hsub, hempty, hlist⟩

end Miez.Proofs.NetworkServer
