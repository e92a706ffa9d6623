import Miez.Proofs.MessageBroker.Failures
import Miez.Proofs.NetworkServer.Steps

/-!
# `Miez.Proofs.NetworkServer.Calls`: the threads of the server inside the broker

The server sees of a call of the broker only that it was made and that it returned. `callOf`
tells the call that a thread is in from its program point in the broker, and `CallEffect` lists
what a step does to the call of its thread and to the subscription objects: a new subscription
comes with the return of a subscribe, a subscription is freed at the return of a
`subscription_free`, and no other step touches the two.

`ConnectionInv` is what a connection holds at each program point of its handler. `CallInv` says
that the program points of the server and of the broker agree.
-/

set_option autoImplicit false

namespace Miez.Proofs.NetworkServer

open Miez.Lib
open Miez.NetworkServer
open Miez.ThreadPool (Tid)
open Miez.Proofs

section
variable {n : Nat}

/-! ### The call that a thread is in -/

/-- A call of a function of the broker. `pool` is a publish or a wait, `free` is
`subscription_free` and `task` is the task of a publish. -/
inductive Call where
  | outside
  | pool
  | task
  | subscribe
  | unsubscribe (k : Nat)
  | free (k : Nat)
  | receive (k : Nat) (tryReceive : Bool)
  | pendingCount (k : Nat)
deriving DecidableEq

/-- The call that a thread is in. -/
def callOf : MessageBroker.Pc → Call
  | .idle => .outside
  | .publish _ | .inPool => .pool
  | .publisherTask _ _ => .task
  | .subscribe _ _ _ => .subscribe
  | .unsubscribe k thenFree _ => if thenFree then .free k else .unsubscribe k
  | .free k => .free k
  | .receive k tryReceive _ => .receive k tryReceive
  | .pendingCount k _ => .pendingCount k

/-- A thread is in no call exactly when it is idle. -/
theorem callOf_eq_outside {pc : MessageBroker.Pc} : callOf pc = .outside ↔ pc = .idle := by
  cases pc with
  | unsubscribe k thenFree u => cases thenFree <;> simp [callOf]
  | _ => simp [callOf]

/-- The event is the return of a call of a subscription. -/
def isReturn : MessageBroker.Event n → Bool
  | .subscribed _ _ _ _ | .unsubscribed _ _ _ | .freed _ _ | .got _ _ _ _ | .receiveFailed _ _
  | .pending _ _ _ => true
  | _ => false

/-- The step shows no return. -/
def Quiet (e : Option (MessageBroker.Event n)) : Prop := ∀ x, e = some x → isReturn x = false

/-- The step makes no subscription and frees none. -/
structure SameSubscriptions (sh sh' : MessageBroker.Shared n) : Prop where
  next : sh'.nextSubscription = sh.nextSubscription
  id : ∀ k, (sh'.subscription k).id = (sh.subscription k).id
  released : ∀ k, (sh'.subscription k).released = (sh.subscription k).released

/-- What a step of the thread `t` does to its call and to the subscription objects. -/
inductive CallEffect (t : Tid n) (sh : MessageBroker.Shared n) :
    Call → MessageBroker.Shared n → Call → Option (MessageBroker.Event n) → Prop where
  | stay {c : Call} {sh' : MessageBroker.Shared n} {e : Option (MessageBroker.Event n)}
      (hsame : SameSubscriptions sh sh') (he : Quiet e) : CallEffect t sh c sh' c e
  | enter {c : Call} {sh' : MessageBroker.Shared n} {e : Option (MessageBroker.Event n)}
      (hsame : SameSubscriptions sh sh') (he : Quiet e) : CallEffect t sh .outside sh' c e
  | leave {c : Call} {sh' : MessageBroker.Shared n} {e : Option (MessageBroker.Event n)}
      (hc : c = .pool ∨ c = .task ∨ c = .subscribe) (hsame : SameSubscriptions sh sh') (he : Quiet e) :
      CallEffect t sh c sh' .outside e
  | subscribed (id : UInt64) (name : CString) (x : Nat) :
      CallEffect t sh .subscribe (sh.newSubscription id name x) .outside
        (some (.subscribed t sh.nextSubscription x name))
  | unsubscribed (k : Nat) (code : Int) {sh' : MessageBroker.Shared n}
      (hsame : SameSubscriptions sh sh') :
      CallEffect t sh (.unsubscribe k) sh' .outside (some (.unsubscribed t k code))
  | freed (k : Nat) (hlive : (sh.subscription k).released = false) :
      CallEffect t sh (.free k)
        (sh.setSubscription k { sh.subscription k with released := true }) .outside
        (some (.freed t k))
  | received (k : Nat) (tryReceive : Bool) {sh' : MessageBroker.Shared n}
      {e : MessageBroker.Event n} (hsame : SameSubscriptions sh sh')
      (he : e = .receiveFailed t k ∨ ∃ x msg, e = .got t k x msg) :
      CallEffect t sh (.receive k tryReceive) sh' .outside (some e)
  | pending (k count : Nat) {sh' : MessageBroker.Shared n} (hsame : SameSubscriptions sh sh') :
      CallEffect t sh (.pendingCount k) sh' .outside (some (.pending t k count))

section
variable {t : Tid n} {sh sh' : MessageBroker.Shared n} {pc pc' : MessageBroker.Pc}
  {e : Option (MessageBroker.Event n)}

/-- Nothing changes. -/
theorem SameSubscriptions.refl (sh : MessageBroker.Shared n) : SameSubscriptions sh sh :=
  ⟨rfl, fun _ => rfl, fun _ => rfl⟩

/-- A step that leaves the table of subscriptions alone. -/
theorem SameSubscriptions.of_eq (hnext : sh'.nextSubscription = sh.nextSubscription)
    (hsub : sh'.subscription = sh.subscription) : SameSubscriptions sh sh' :=
  ⟨hnext, fun k => by rw [hsub], fun k => by rw [hsub]⟩

/-- A write to another field of a subscription. -/
theorem SameSubscriptions.setSubscription {k : Nat} {sub : MessageBroker.Subscription}
    (hid : sub.id = (sh.subscription k).id)
    (hreleased : sub.released = (sh.subscription k).released) :
    SameSubscriptions sh (sh.setSubscription k sub) := by
  refine ⟨rfl, fun k' => ?_, fun k' => ?_⟩ <;>
  · by_cases hk : k' = k
    · subst hk
      simpa [MessageBroker.Shared.setSubscription]
    · simp [MessageBroker.Shared.setSubscription, Function.update_of_ne hk]

/-- No event. -/
theorem quiet_none : Quiet (none : Option (MessageBroker.Event n)) := by
  intro x hx
  cases hx

/-- An event that is no return. -/
theorem quiet_some {x : MessageBroker.Event n} (h : isReturn x = false) : Quiet (some x) := by
  intro y hy
  obtain rfl := Option.some.inj hy
  exact h

/-- An event of the pool is no return. -/
theorem quiet_pool (e : Option (ThreadPool.Event n MessageBroker.PublisherTaskArg)) :
    Quiet (e.map MessageBroker.Event.pool) := by
  cases e with
  | none => exact quiet_none
  | some e => exact quiet_some rfl

/-- A step of the get-or-create leaves the subscriptions alone. -/
theorem getChannelStep_sameSubscriptions {name : CString} {g : MessageBroker.GetChannelPc}
    {r : MessageBroker.GetChannelResult}
    (h : MessageBroker.GetChannelStep t name sh g sh' r) : SameSubscriptions sh sh' := by
  cases h <;> exact .of_eq rfl rfl

/-- The return of `subscription_unsubscribe`. -/
theorem unsubscribeReturn_callEffect {k : Nat} {thenFree : Bool} {code : Int}
    {u : MessageBroker.UnsubscribePc} (hsame : SameSubscriptions sh sh')
    (h : MessageBroker.unsubscribeReturn t k thenFree sh' code = .step sh' pc' e) :
    CallEffect t sh (callOf (.unsubscribe k thenFree u)) sh' (callOf pc') e := by
  cases thenFree with
  | true =>
      obtain ⟨-, rfl, rfl⟩ : sh' = sh' ∧ _ = pc' ∧ none = e := by
        simpa [MessageBroker.unsubscribeReturn] using h
      exact .stay hsame quiet_none
  | false =>
      obtain ⟨-, rfl, rfl⟩ : sh' = sh' ∧ _ = pc' ∧ _ = e := by
        simpa [MessageBroker.unsubscribeReturn] using h
      exact .unsubscribed k code hsame

/-- What a step of a thread inside a function of the broker does to its call. -/
theorem threadFunction_callEffect {move : MessageBroker.Move n}
    (h : MessageBroker.threadFunction t sh pc move = some (.step sh' pc' e))
    (hstep : MessageBroker.ThreadStep t sh pc sh' pc' e) :
    CallEffect t sh (callOf pc) sh' (callOf pc') e := by
  cases hstep with
  | callPublish c ht name content => exact .enter (.of_eq rfl rfl) (quiet_some rfl)
  | callSubscribe c ht name => exact .enter (.of_eq rfl rfl) (quiet_some rfl)
  | callUnsubscribe c ht k thenFree hk => exact .enter (.refl sh) (quiet_some rfl)
  | callFree c ht k => exact .enter (.refl sh) quiet_none
  | callReceive c ht k tryReceive hk => exact .enter (.refl sh) quiet_none
  | callPendingCount c ht k => exact .enter (.refl sh) quiet_none
  | taskMore hg | taskFound hg | subscribeMore hg | subscribeFound hg =>
      exact .stay (getChannelStep_sameSubscriptions hg) quiet_none
  | fanout ch hfree => exact .stay (.of_eq rfl rfl) (quiet_some rfl)
  | put ch i x => exact .stay (.of_eq rfl rfl) (quiet_some rfl)
  | taskUnlock ch => exact .leave (Or.inr (Or.inl rfl)) (.of_eq rfl rfl) quiet_none
  | newSubscription x => exact .subscribed _ _ x
  | unsubscribeInactive hret =>
      obtain rfl : move = .go := by
        cases move <;> simp_all [MessageBroker.threadFunction, MessageBroker.subscriptionUnsubscribe]
      simp only [MessageBroker.threadFunction, MessageBroker.subscriptionUnsubscribe,
        MessageBroker.derefSubscription_eq_step, Option.some.injEq] at h
      obtain ⟨-, h⟩ := h
      split at h
      · obtain ⟨-, rfl, rfl⟩ := MessageBroker.Outcome.step.inj h
        exact .stay (.refl sh) quiet_none
      · exact unsubscribeReturn_callEffect (.refl sh) h
  | clearActive => exact .stay (.setSubscription rfl rfl) quiet_none
  | clearProxy hret =>
      obtain rfl : move = .go := by
        cases move <;> simp_all [MessageBroker.threadFunction, MessageBroker.subscriptionUnsubscribe]
      simp only [MessageBroker.threadFunction, MessageBroker.subscriptionUnsubscribe,
        MessageBroker.derefSubscription_eq_step, Option.some.injEq] at h
      exact unsubscribeReturn_callEffect (.setSubscription rfl rfl) h.2
  | release k =>
      obtain rfl : move = .go := by
        cases move <;> simp_all [MessageBroker.threadFunction]
      simp only [MessageBroker.threadFunction, MessageBroker.derefSubscription_eq_step] at h
      exact .freed k h.1
  | receiveRead hret =>
      rcases hret with ⟨r', rfl, rfl⟩ | ⟨rfl, rfl⟩
      · exact .stay (.refl sh) quiet_none
      · exact .received _ _ (.refl sh) (Or.inl rfl)
  | receiveInbox x p hp hinbox hret =>
      rcases hret with ⟨r', rfl, rfl⟩ | ⟨rfl, rfl⟩
      · exact .stay (.of_eq rfl rfl) quiet_none
      · exact .received _ _ (.of_eq rfl rfl) (Or.inl rfl)
  | got x => exact .received _ _ (.of_eq rfl rfl) (Or.inr ⟨x, _, rfl⟩)
  | pendingRead hret =>
      rcases hret with ⟨rfl, rfl⟩ | ⟨rfl, count, rfl⟩
      · exact .stay (.refl sh) quiet_none
      · exact .pending _ count (.refl sh)
  | _ => exact .stay (.of_eq rfl rfl) quiet_none

/-- What a step of a failing call does to the call. -/
theorem failStep_callEffect (h : MessageBroker.FailStep t sh pc sh' pc' e) :
    CallEffect t sh (callOf pc) sh' (callOf pc') e := by
  cases h with
  | publish arg => exact .leave (Or.inl rfl) (.refl sh) (quiet_some rfl)
  | taskMore hg | subscribeMore hg => cases hg <;> exact .stay (.of_eq rfl rfl) quiet_none
  | taskFailed hg => cases hg <;> exact .leave (Or.inr (Or.inl rfl)) (.of_eq rfl rfl) quiet_none
  | subscribeFailed hg =>
      cases hg <;> exact .leave (Or.inr (Or.inr rfl)) (.of_eq rfl rfl) (quiet_some rfl)
  | newProxy ch | newSubscription x =>
      exact .leave (Or.inr (Or.inr rfl)) (.refl sh) (quiet_some rfl)
  | freeRelease x => exact .leave (Or.inr (Or.inr rfl)) (.of_eq rfl rfl) (quiet_some rfl)
  | _ => exact .stay (.of_eq rfl rfl) quiet_none

/-- The thread of a step of the pool. -/
theorem actor_of_poolAction {a : MessageBroker.Action n}
    {pa : ThreadPool.Action n MessageBroker.PublisherTaskArg} (h : MessageBroker.PoolAction a pa) :
    (∀ d, pa = .dispatcher d → actor a = .dispatcher d) ∧
    (∀ c move, pa = .client c move → actor a = .client c) := by
  cases a with
  | dispatcher d =>
      obtain rfl : pa = .dispatcher d := h
      exact ⟨fun d' hd => by cases hd; rfl, fun c move hc => by cases hc⟩
  | submit c =>
      obtain ⟨arg, rfl⟩ := h
      exact ⟨fun d' hd => (by cases hd), fun c move hc => by cases hc; rfl⟩
  | wait c =>
      obtain rfl : pa = .client c .callWait := h
      exact ⟨fun d' hd => (by cases hd), fun c move hc => by cases hc; rfl⟩
  | pool c move =>
      obtain rfl : pa = .client c move := h
      exact ⟨fun d' hd => (by cases hd), fun c move hc => by cases hc; rfl⟩
  | thread t move => exact absurd h id

/-- A step of the pool enters or leaves a call of the pool or of a task. -/
theorem poolStep_callEffect {b : MessageBroker.State n}
    {pa : ThreadPool.Action n MessageBroker.PublisherTaskArg}
    {pool : ThreadPool.State n MessageBroker.PublisherTaskArg}
    {e' : Option (ThreadPool.Event n MessageBroker.PublisherTaskArg)}
    (h : MessageBroker.PoolStep b pa pool t pc e') :
    CallEffect t b.shared (callOf (b.pc t)) b.shared (callOf pc) (e'.map .pool) := by
  cases h with
  | dispatcher hidle hf =>
      rw [hidle]
      exact .enter (.refl _) (quiet_pool _)
  | client hf hpc =>
      rcases hpc with ⟨arg, hpc, -, rfl⟩ | ⟨hpc, -, rfl⟩ | ⟨hpc, rfl⟩
      · rw [hpc]
        exact .stay (.refl _) (quiet_pool _)
      · rw [hpc]
        exact .enter (.refl _) (quiet_pool _)
      · rw [hpc]
        split
        · exact .leave (Or.inl rfl) (.refl _) (quiet_pool _)
        · exact .stay (.refl _) (quiet_pool _)

/-- What a step of the broker does to the call of its thread. -/
theorem next_callEffect {b b' : MessageBroker.State n} {a : MessageBroker.Action n}
    (h : MessageBroker.next b a = some (b', e)) :
    CallEffect (actor a) b.shared (callOf (b.pc (actor a))) b'.shared
      (callOf (b'.pc (actor a))) e := by
  rcases MessageBroker.next_cases h with ⟨pa, pool, t, pc, e', hpa, hstep, rfl, hold, hnew, rfl⟩ |
      ⟨t, move, sh, pc, rfl, hf, rfl⟩ | ⟨t, rfl, rfl⟩
  · have hactor : actor a = t := by
      cases hstep with
      | dispatcher hidle hf => exact (actor_of_poolAction hpa).1 _ rfl
      | client hf hpc => exact (actor_of_poolAction hpa).2 _ _ rfl
    rw [hactor]
    show CallEffect t b.shared (callOf (b.pc t)) b.shared (callOf (Function.update b.pc t pc t)) _
    rw [Function.update_self]
    exact poolStep_callEffect hstep
  · show CallEffect t b.shared (callOf (b.pc t)) sh (callOf (Function.update b.pc t pc t)) e
    rw [Function.update_self]
    rcases MessageBroker.threadFunction_cases hf with hstep | ⟨hstep, -⟩
    · exact threadFunction_callEffect hf hstep
    · exact failStep_callEffect hstep
  · exact .stay (.refl _) quiet_none

end

/-! ### What a connection holds -/

/-- The receiver thread runs. -/
def isRunning : ReceiverPc → Bool
  | .absent | .exited => false
  | _ => true

/-- The connection has a subscription and will unsubscribe it when it leaves. -/
structure Attached (ctx : Connection) : Prop where
  subscription : ctx.subscription ≠ none
  detached : ctx.detached = false

/-- The connection has neither a subscription nor a receiver thread. -/
structure Unattached (ctx : Connection) : Prop where
  subscription : ctx.subscription = none
  receiver : ctx.receiver = .absent

/-- What a connection holds at the program points of its handler. -/
def ConnectionInv (ctx : Connection) : Prop :=
  match ctx.handler with
  | .absent | .callSubscribe _ | .subscribing | .findDetached _ | .closed => Unattached ctx
  | .testRunning | .read _ | .reply _ _ | .callPublish _ _ | .publishing | .leave =>
      Unattached ctx ∨ Attached ctx
  | .createReceiver _ | .addDetached => Attached ctx ∧ ctx.receiver = .absent
  | .getId | .callPending | .pendingCount | .deactivate | .joinDetach | .joinLeave => Attached ctx
  | .activate _ | .linkDetached _ | .detachGetId | .callUnsubscribe | .unsubscribing | .callFree
  | .freeing => ctx.subscription ≠ none ∧ ctx.receiver = .absent
  | .faulted => ctx.subscription ≠ none

/-- Where a receiver thread is when no allocation and no start of a thread has failed: the
connection that has a subscription has one that is told to run and does. -/
def RunningInv (ctx : Connection) : Prop :=
  match ctx.handler with
  | .testRunning | .read _ | .reply _ _ | .callPublish _ _ | .publishing | .leave | .getId
  | .callPending | .pendingCount | .deactivate =>
      ctx.subscription ≠ none → ctx.active = true ∧ isRunning ctx.receiver = true
  | .createReceiver _ => ctx.active = true
  | _ => True

section
variable {ctx ctx' : Connection} {registry registry' : List Detached} {i : Nat} {move : Move}
  {e : Option (Event n)}

/-- A command leaves the subscription and the receiver to the steps that follow. -/
theorem connectionInv_handleCommand {apiKey : Option CString} {buffer : List UInt8}
    (h : Unattached ctx ∨ Attached ctx) : ConnectionInv (handleCommand apiKey ctx buffer) := by
  have hkeep : ∀ (authenticated : Bool) (pc : HandlerPc),
      Unattached { ctx with authenticated := authenticated, handler := pc } ∨
        Attached { ctx with authenticated := authenticated, handler := pc } :=
    fun _ _ => h.imp (fun h => ⟨h.1, h.2⟩) fun h => ⟨h.1, h.2⟩
  unfold handleCommand
  split
  · exact hkeep _ _
  · split_ifs with hsub
    · exact hkeep _ _
    · rcases h with h | h
      · exact ⟨h.1, h.2⟩
      · exact absurd (Option.isSome_iff_ne_none.mpr h.1) hsub
  · unfold handlePublish
    split_ifs
    · exact hkeep _ _
    · exact hkeep _ _
  · split_ifs with hsub
    · exact hkeep _ _
    · rcases h with h | h
      · exact ⟨h.1, h.2⟩
      · exact absurd (Option.isSome_iff_ne_none.mpr h.1) hsub
  · split_ifs with hsub
    · rcases h with h | h
      · simp [h.1] at hsub
      · exact ⟨h.1, h.2⟩
    · exact hkeep _ _
  · exact hkeep _ _
  · exact hkeep _ _

/-- The program point after `subscription_get_id` is the one that follows it, or the fault. -/
theorem withId_cases (sh : MessageBroker.Shared n) (ctx : Connection) (pc : UInt64 → HandlerPc) :
    (∃ id, getId sh ctx = some id ∧ withId sh ctx pc = pc id) ∨
      (getId sh ctx = none ∧ withId sh ctx pc = .faulted) := by
  unfold withId
  cases getId sh ctx with
  | none => exact Or.inr ⟨rfl, rfl⟩
  | some id => exact Or.inl ⟨id, rfl, rfl⟩

/-- A step of a handler keeps `ConnectionInv`. -/
theorem HandlerStep.connectionInv {apiKey : Option CString} {running : Bool}
    {sh : MessageBroker.Shared n}
    (h : HandlerStep apiKey i running sh registry ctx move (.step ctx' registry' e))
    (hinv : ConnectionInv ctx) : ConnectionInv ctx' := by
  have hkeep : ∀ {pc : HandlerPc}, Unattached ctx ∨ Attached ctx →
      Unattached { ctx with handler := pc } ∨ Attached { ctx with handler := pc } :=
    fun h => h.imp (fun h => ⟨h.1, h.2⟩) fun h => ⟨h.1, h.2⟩
  unfold ConnectionInv at hinv
  cases h with
  | start hpc _ | stopped hpc _ =>
      rw [hpc] at hinv
      exact hkeep hinv
  | readMore hpc _ | readLeave hpc _ | readPublish hpc _ | readFailed hpc _ =>
      rw [hpc] at hinv
      exact hkeep hinv
  | command hpc _ =>
      rw [hpc] at hinv
      exact connectionInv_handleCommand hinv
  | @reply r last hpc =>
      rw [hpc] at hinv
      cases last <;> exact hkeep hinv
  | activate hpc =>
      rw [hpc] at hinv
      exact ⟨⟨hinv.1, rfl⟩, hinv.2⟩
  | @createReceiver attach hpc | @createFailed attach hpc =>
      rw [hpc] at hinv
      cases attach <;> exact ⟨hinv.1.1, hinv.1.2⟩
  | getId hpc =>
      rw [hpc] at hinv
      rcases withId_cases sh ctx fun id => .reply (.okNumber id.toNat) false with
        ⟨id, -, hid⟩ | ⟨-, hid⟩
      · rw [hid]
        exact hkeep (Or.inr hinv)
      · rw [hid]
        exact hinv.1
  | notFound hpc _ =>
      rw [hpc] at hinv
      exact hkeep (Or.inl hinv)
  | attach hpc _ =>
      rw [hpc] at hinv
      exact ⟨Option.some_ne_none _, hinv.2⟩
  | deactivate hpc =>
      rw [hpc] at hinv
      exact ⟨hinv.1, hinv.2⟩
  | joinDetach hpc _ =>
      rw [hpc] at hinv
      exact ⟨⟨hinv.1, hinv.2⟩, rfl⟩
  | joinLeave hpc _ =>
      rw [hpc] at hinv
      exact ⟨hinv.1, rfl⟩
  | addDetached hpc =>
      rw [hpc] at hinv
      rcases withId_cases sh ctx .linkDetached with ⟨id, -, hid⟩ | ⟨-, hid⟩
      · rw [hid]
        exact ⟨hinv.1.1, hinv.2⟩
      · rw [hid]
        exact hinv.1.1
  | addFailed hpc =>
      rw [hpc] at hinv
      rcases withId_cases sh ctx fun _ => .reply (.err .failedToDetach) false with
        ⟨id, -, hid⟩ | ⟨-, hid⟩
      · rw [hid]
        exact hkeep (Or.inr hinv.1)
      · rw [hid]
        exact hinv.1.1
  | link hpc _ =>
      rw [hpc] at hinv
      exact hinv
  | detach hpc _ =>
      rw [hpc] at hinv
      exact Or.inl ⟨rfl, hinv.2⟩
  | detachFault hpc _ =>
      rw [hpc] at hinv
      exact hinv.1
  | publishFailed hpc =>
      rw [hpc] at hinv
      exact hkeep hinv
  | leave hpc =>
      rw [hpc] at hinv
      rcases hinv with hinv | hinv
      · have hsub : ¬ (ctx.subscription.isSome = true ∧ ctx.detached = false) := by
          simp [hinv.1]
        rw [if_neg hsub]
        exact ⟨hinv.1, hinv.2⟩
      · have hsub : ctx.subscription.isSome = true ∧ ctx.detached = false :=
          ⟨Option.isSome_iff_ne_none.mpr hinv.1, hinv.2⟩
        rw [if_pos hsub]
        exact ⟨hinv.1, hinv.2⟩

/-- A call of the broker by a handler keeps `ConnectionInv`. -/
theorem HandlerStep.connectionInv_call {apiKey : Option CString} {running : Bool}
    {sh : MessageBroker.Shared n} {call : MessageBroker.Move n}
    (h : HandlerStep apiKey i running sh registry ctx move (.call ctx' call))
    (hinv : ConnectionInv ctx) : ConnectionInv ctx' := by
  unfold ConnectionInv at hinv
  cases h with
  | callSubscribe hpc =>
      rw [hpc] at hinv
      exact ⟨hinv.1, hinv.2⟩
  | callPending hpc hk =>
      rw [hpc] at hinv
      exact ⟨hinv.1, hinv.2⟩
  | callPublish hpc =>
      rw [hpc] at hinv
      exact hinv.imp (fun h => ⟨h.1, h.2⟩) fun h => ⟨h.1, h.2⟩
  | callUnsubscribe hpc hk =>
      rw [hpc] at hinv
      exact hinv
  | callFree hpc hk =>
      rw [hpc] at hinv
      exact hinv

/-- A receiver that exists keeps `ConnectionInv` when it goes on. -/
theorem ConnectionInv.setReceiver (hinv : ConnectionInv ctx) {pc : ReceiverPc}
    (hold : ctx.receiver ≠ .absent) : ConnectionInv { ctx with receiver := pc } := by
  unfold ConnectionInv at hinv ⊢
  have hattached : ∀ {hpc : HandlerPc}, Attached ctx →
      Attached { ctx with handler := hpc, receiver := pc } := fun h => ⟨h.1, h.2⟩
  have hunattached : ¬ Unattached ctx := fun h => hold h.2
  cases hpc : ctx.handler with
  | absent | callSubscribe _ | subscribing | findDetached _ | closed =>
      rw [hpc] at hinv
      exact absurd hinv hunattached
  | testRunning | read _ | reply _ _ | callPublish _ _ | publishing | leave =>
      rw [hpc] at hinv
      exact Or.inr (hattached (Or.resolve_left hinv hunattached))
  | getId | callPending | pendingCount | deactivate | joinDetach | joinLeave =>
      rw [hpc] at hinv
      exact hattached hinv
  | createReceiver _ | addDetached | activate _ | linkDetached _ | detachGetId | callUnsubscribe
  | unsubscribing | callFree | freeing =>
      rw [hpc] at hinv
      exact absurd hinv.2 hold
  | faulted =>
      rw [hpc] at hinv
      exact hinv

/-- The return of a call of a handler keeps `ConnectionInv`. -/
theorem ConnectionInv.handlerReturn (hinv : ConnectionInv ctx)
    (e : Option (MessageBroker.Event n)) : ConnectionInv (handlerReturn ctx e) := by
  have hinv' := hinv
  unfold ConnectionInv at hinv'
  unfold Miez.NetworkServer.handlerReturn
  split
  · rename_i hpc
    rw [hpc] at hinv'
    exact ⟨Option.some_ne_none _, hinv'.2⟩
  · rename_i hpc _
    rw [hpc] at hinv'
    exact Or.inl ⟨hinv'.1, hinv'.2⟩
  · rename_i hpc
    rw [hpc] at hinv'
    exact Or.inr ⟨hinv'.1, hinv'.2⟩
  · rename_i hpc
    rw [hpc] at hinv'
    exact hinv'.imp (fun h => ⟨h.1, h.2⟩) fun h => ⟨h.1, h.2⟩
  · rename_i hpc _
    rw [hpc] at hinv'
    exact hinv'.imp (fun h => ⟨h.1, h.2⟩) fun h => ⟨h.1, h.2⟩
  · rename_i hpc
    rw [hpc] at hinv'
    exact hinv'
  · rename_i hpc
    rw [hpc] at hinv'
    exact ⟨rfl, hinv'.2⟩
  · exact hinv

/-- A step of a receiver keeps `ConnectionInv`. -/
theorem ReceiverStep.connectionInv {o : Outcome n} (h : ReceiverStep i registry ctx move o)
    (hinv : ConnectionInv ctx) :
    (∀ ctx' registry' e, o = .step ctx' registry' e → ConnectionInv ctx') ∧
    (∀ ctx' call, o = .call ctx' call → ConnectionInv ctx') := by
  cases h with
  | goOn hpc _ | exit hpc _ | malloc hpc | mallocFailed hpc | write hpc _ | writeFailed hpc
  | sleep hpc =>
      refine ⟨?_, fun _ _ ho => by cases ho⟩
      intro ctx' registry' e ho
      cases ho
      exact hinv.setReceiver (by rw [hpc]; simp)
  | callReceive hpc hk =>
      refine ⟨fun _ _ _ ho => (by cases ho), ?_⟩
      intro ctx' call ho
      cases ho
      exact hinv.setReceiver (by rw [hpc]; simp)

/-- The return of a call of a receiver keeps `ConnectionInv`. -/
theorem ConnectionInv.receiverReturn (hinv : ConnectionInv ctx)
    (e : Option (MessageBroker.Event n)) : ConnectionInv (receiverReturn ctx e) := by
  unfold Miez.NetworkServer.receiverReturn
  split
  · rename_i hpc
    exact hinv.setReceiver (by rw [hpc]; simp)
  · rename_i hpc _
    exact hinv.setReceiver (by rw [hpc]; simp)
  · exact hinv

end

/-! ### Runs -/

section
variable {capacity : UInt64} {hcap : capacity ≠ 0} {apiKey : Option CString}

/-- `ConnectionInv` holds of every connection in every state of a run. -/
theorem connectionInv_of_run {K : State n → Action n → Prop} {tr : List (Event n)} {s : State n}
    (h : (machine n capacity hcap apiKey).RunIf K tr s) (i : Nat) :
    ConnectionInv (s.connection i) := by
  refine h.induction (I := fun _ s => ∀ i, ConnectionInv (s.connection i)) ?_ ?_ i
  · intro i
    exact ⟨rfl, rfl⟩
  · intro tr s a s' e hrun hinv hK hnext
    have hset : ∀ {j : Nat} {ctx : Connection}, ConnectionInv ctx →
        ∀ i, ConnectionInv (Function.update s.connection j ctx i) := fun hctx =>
      forall_update (P := fun _ ctx => ConnectionInv ctx) hctx fun i _ => hinv i
    cases next_netStep hnext with
    | accept => exact hset (Or.inl ⟨rfl, rfl⟩)
    | @handler j move ctx registry e hf =>
        exact hset ((clientHandler_step rfl hf).connectionInv (hinv j))
    | @handlerCall j move ctx call b e hf hb =>
        exact hset ((clientHandler_step rfl hf).connectionInv_call (hinv j))
    | @receiver j move ctx registry e hf =>
        exact hset (((subscriberReceiverThread_step hf).connectionInv (hinv j)).1 _ _ _ rfl)
    | @receiverCall j move ctx call b e hf hb =>
        exact hset (((subscriberReceiverThread_step hf).connectionInv (hinv j)).2 _ _ rfl)
    | @back a client b e hinside hb hclient hidle =>
        cases client with
        | handler j => exact hset ((hinv j).handlerReturn e)
        | receiver j => exact hset ((hinv j).receiverReturn e)
        | publisher j => exact hinv
        | main =>
            rw [returnTo_main_connection]
            exact hinv
    | _ => exact hinv

/-! ### The receiver thread of a connection -/

section
variable {ctx ctx' : Connection} {registry registry' : List Detached} {i : Nat} {move : Move}
  {e : Option (Event n)}

/-- A command leaves the receiver alone. -/
theorem runningInv_handleCommand {buffer : List UInt8}
    (h : ctx.subscription ≠ none → ctx.active = true ∧ isRunning ctx.receiver = true) :
    RunningInv (handleCommand apiKey ctx buffer) := by
  unfold handleCommand
  split
  · exact h
  · split_ifs
    · exact h
    · trivial
  · unfold handlePublish
    split_ifs <;> exact h
  · split_ifs
    · exact h
    · trivial
  · split_ifs <;> exact h
  · exact h
  · exact h

/-- A step of a handler keeps `RunningInv` when no allocation fails. -/
theorem HandlerStep.runningInv {running : Bool} {sh : MessageBroker.Shared n}
    (h : HandlerStep apiKey i running sh registry ctx move (.step ctx' registry' e))
    (hconn : ConnectionInv ctx) (hinv : RunningInv ctx) (hmove : move ≠ .fail) :
    RunningInv ctx' := by
  unfold RunningInv at hinv
  unfold ConnectionInv at hconn
  cases h with
  | command hpc _ =>
      rw [hpc] at hinv
      exact runningInv_handleCommand hinv
  | @reply r last hpc =>
      rw [hpc] at hinv
      cases last <;> exact hinv
  | activate hpc => exact rfl
  | @createReceiver attach hpc =>
      rw [hpc] at hinv
      cases attach <;> exact fun _ => ⟨hinv, rfl⟩
  | createFailed hpc | addFailed hpc | publishFailed hpc => exact absurd rfl hmove
  | getId hpc =>
      rw [hpc] at hinv
      rcases withId_cases sh ctx fun id => .reply (.okNumber id.toNat) false with
        ⟨id, -, hid⟩ | ⟨-, hid⟩
      · rw [hid]
        exact hinv
      · rw [hid]
        trivial
  | notFound hpc _ =>
      rw [hpc] at hconn
      exact fun hsub => absurd hconn.1 hsub
  | addDetached hpc =>
      rcases withId_cases sh ctx .linkDetached with ⟨id, -, hid⟩ | ⟨-, hid⟩ <;> rw [hid] <;> trivial
  | detach hpc _ => exact fun hsub => absurd rfl hsub
  | leave hpc =>
      unfold RunningInv
      split_ifs <;> trivial
  | start hpc _ | stopped hpc _ | readMore hpc _ | readLeave hpc _ | readPublish hpc _
  | readFailed hpc _ =>
      rw [hpc] at hinv
      exact hinv
  | attach | deactivate | joinDetach | link | detachFault | joinLeave => trivial

/-- A call of the broker by a handler keeps `RunningInv`. -/
theorem HandlerStep.runningInv_call {running : Bool} {sh : MessageBroker.Shared n}
    {call : MessageBroker.Move n}
    (h : HandlerStep apiKey i running sh registry ctx move (.call ctx' call))
    (hinv : RunningInv ctx) : RunningInv ctx' := by
  unfold RunningInv at hinv
  cases h with
  | callPending hpc _ =>
      rw [hpc] at hinv
      exact hinv
  | callPublish hpc =>
      rw [hpc] at hinv
      exact hinv
  | callSubscribe | callUnsubscribe | callFree => trivial

/-- A receiver keeps `RunningInv` when it stops only because it is told to. -/
theorem RunningInv.setReceiver (hinv : RunningInv ctx) {pc : ReceiverPc}
    (hrunning : ctx.active = true → isRunning pc = true) :
    RunningInv { ctx with receiver := pc } := by
  unfold RunningInv at hinv ⊢
  cases hpc : ctx.handler with
  | testRunning | read _ | reply _ _ | callPublish _ _ | publishing | leave | getId | callPending
  | pendingCount | deactivate =>
      rw [hpc] at hinv
      exact fun hsub => ⟨(hinv hsub).1, hrunning (hinv hsub).1⟩
  | createReceiver _ =>
      rw [hpc] at hinv
      exact hinv
  | _ => trivial

/-- A step of a receiver keeps `RunningInv`. -/
theorem ReceiverStep.runningInv {o : Outcome n} (h : ReceiverStep i registry ctx move o)
    (hinv : RunningInv ctx) :
    (∀ ctx' registry' e, o = .step ctx' registry' e → RunningInv ctx') ∧
    (∀ ctx' call, o = .call ctx' call → RunningInv ctx') := by
  cases h with
  | exit hpc hactive =>
      refine ⟨?_, fun _ _ ho => by cases ho⟩
      intro ctx' registry' e ho
      cases ho
      refine hinv.setReceiver fun h => ?_
      rw [hactive] at h
      cases h
  | goOn hpc _ | malloc hpc | mallocFailed hpc | write hpc _ | writeFailed hpc | sleep hpc =>
      refine ⟨?_, fun _ _ ho => by cases ho⟩
      intro ctx' registry' e ho
      cases ho
      exact hinv.setReceiver fun _ => rfl
  | callReceive hpc hk =>
      refine ⟨fun _ _ _ ho => (by cases ho), ?_⟩
      intro ctx' call ho
      cases ho
      exact hinv.setReceiver fun _ => rfl

/-- The return of a call of a handler keeps `RunningInv`. -/
theorem RunningInv.handlerReturn (hinv : RunningInv ctx) (hconn : ConnectionInv ctx)
    (e : Option (MessageBroker.Event n)) : RunningInv (handlerReturn ctx e) := by
  have hinv' := hinv
  unfold RunningInv at hinv'
  unfold ConnectionInv at hconn
  unfold Miez.NetworkServer.handlerReturn
  split
  · trivial
  · rename_i hpc _
    rw [hpc] at hconn
    exact fun hsub => absurd hconn.1 hsub
  · rename_i hpc
    rw [hpc] at hinv'
    exact hinv'
  · rename_i hpc
    rw [hpc] at hinv'
    exact hinv'
  · rename_i hpc _
    rw [hpc] at hinv'
    exact hinv'
  · trivial
  · trivial
  · exact hinv

/-- The return of a call of a receiver keeps `RunningInv`. -/
theorem RunningInv.receiverReturn (hinv : RunningInv ctx)
    (e : Option (MessageBroker.Event n)) : RunningInv (receiverReturn ctx e) := by
  unfold Miez.NetworkServer.receiverReturn
  split
  · exact hinv.setReceiver fun _ => rfl
  · exact hinv.setReceiver fun _ => rfl
  · exact hinv

end

/-- `RunningInv` holds of every connection in every state of a run. -/
theorem runningInv_of_run {tr : List (Event n)} {s : State n}
    (h : (machine n capacity hcap apiKey).RunIf AllocationsSucceed tr s) (i : Nat) :
    RunningInv (s.connection i) := by
  refine h.induction (I := fun _ s => ∀ i, RunningInv (s.connection i)) ?_ ?_ i
  · intro i
    trivial
  · intro tr s a s' e hrun hinv hK hnext
    have hconn := connectionInv_of_run hrun
    have hset : ∀ {j : Nat} {ctx : Connection}, RunningInv ctx →
        ∀ i, RunningInv (Function.update s.connection j ctx i) := fun hctx =>
      forall_update (P := fun _ ctx => RunningInv ctx) hctx fun i _ => hinv i
    cases next_netStep hnext with
    | accept => exact hset fun hsub => absurd rfl hsub
    | @handler j move ctx registry e hf =>
        refine hset ((clientHandler_step rfl hf).runningInv (hconn j) (hinv j) ?_)
        rintro rfl
        exact hK
    | @handlerCall j move ctx call b e hf hb =>
        exact hset ((clientHandler_step rfl hf).runningInv_call (hinv j))
    | @receiver j move ctx registry e hf =>
        exact hset (((subscriberReceiverThread_step hf).runningInv (hinv j)).1 _ _ _ rfl)
    | @receiverCall j move ctx call b e hf hb =>
        exact hset (((subscriberReceiverThread_step hf).runningInv (hinv j)).2 _ _ rfl)
    | @back a client b e hinside hb hclient hidle =>
        cases client with
        | handler j => exact hset ((hinv j).handlerReturn (hconn j) e)
        | receiver j => exact hset ((hinv j).receiverReturn e)
        | publisher j => exact hinv
        | main =>
            rw [returnTo_main_connection]
            exact hinv
    | _ => exact hinv

/-! ### The end of the server -/

/-- Once `network_server_free` has started, the connections are closed and none is accepted. -/
def ClosedInv (s : State n) : Prop :=
  s.main ≠ .serving → s.running = false ∧
    ∀ i, (s.connection i).handler = .closed ∨ (s.connection i).handler = .absent

/-- A handler that has left, or was never there, takes no step. -/
theorem HandlerStep.not_closed {i : Nat} {running : Bool} {sh : MessageBroker.Shared n}
    {registry : List Detached} {ctx : Connection} {move : Move} {o : Outcome n}
    (h : HandlerStep apiKey i running sh registry ctx move o) :
    ¬ (ctx.handler = .closed ∨ ctx.handler = .absent) := by
  intro hclosed
  cases h <;> simp_all

/-- A connection whose handler has left, or was never there, has no receiver. -/
theorem ConnectionInv.unattached_of_closed {ctx : Connection} (h : ConnectionInv ctx)
    (hclosed : ctx.handler = .closed ∨ ctx.handler = .absent) : Unattached ctx := by
  unfold ConnectionInv at h
  rcases hclosed with hpc | hpc <;>
  · rw [hpc] at h
    exact h

/-- `ClosedInv` holds in every state of a run. -/
theorem closedInv_of_run {K : State n → Action n → Prop} {tr : List (Event n)} {s : State n}
    (h : (machine n capacity hcap apiKey).RunIf K tr s) : ClosedInv s := by
  refine h.induction (I := fun _ s => ClosedInv s) (fun hmain => absurd rfl hmain) ?_
  intro tr s a s' e hrun hinv hK hnext
  cases next_netStep hnext with
  | accept hrunning =>
      intro hmain
      rw [(hinv hmain).1] at hrunning
      cases hrunning
  | @handler j move ctx registry e hf =>
      intro hmain
      exact absurd ((hinv hmain).2 j) (clientHandler_step rfl hf).not_closed
  | @handlerCall j move ctx call b e hf hb =>
      intro hmain
      exact absurd ((hinv hmain).2 j) (clientHandler_step rfl hf).not_closed
  | @receiver j move ctx registry e hf =>
      intro hmain
      have habsent := (connectionInv_of_run hrun j).unattached_of_closed ((hinv hmain).2 j)
      cases subscriberReceiverThread_step hf <;> simp_all [habsent.2]
  | @receiverCall j move ctx call b e hf hb =>
      intro hmain
      have habsent := (connectionInv_of_run hrun j).unattached_of_closed ((hinv hmain).2 j)
      cases subscriberReceiverThread_step hf
      simp_all [habsent.2]
  | stop => exact fun hmain => ⟨rfl, (hinv hmain).2⟩
  | freeStart hmain hclosed =>
      refine fun _ => ⟨rfl, fun i => ?_⟩
      by_cases hi : i < s.nextConnection
      · exact Or.inl (hclosed i hi)
      · have hno := noConnection_of_run (hrun.mono fun _ _ _ => trivial) i (not_lt.mp hi)
        exact Or.inr (by rw [show State.connection _ i = noConnection from hno]; rfl)
  | freeEnd hmain hnil => exact fun _ => hinv (by rw [hmain]; simp)
  | freeUnsubscribe hmain hcons hb => exact fun _ => hinv (by rw [hmain]; simp)
  | freeFree hmain hcons hb => exact fun _ => hinv (by rw [hmain]; simp)
  | publish hb => exact hinv
  | inside hinside hb hstay => exact hinv
  | @back a client b e hinside hb hclient hidle =>
      cases client with
      | handler j =>
          intro hmain
          refine ⟨(hinv hmain).1, ?_⟩
          refine forall_update (P := fun _ (ctx : Connection) =>
            ctx.handler = .closed ∨ ctx.handler = .absent) ?_ fun i _ => (hinv hmain).2 i
          have hj := (hinv hmain).2 j
          have hsame : handlerReturn (s.connection j) e = s.connection j := by
            unfold handlerReturn
            rcases hj with hj | hj <;> rw [hj]
          rw [hsame]
          exact hj
      | receiver j =>
          intro hmain
          refine ⟨(hinv hmain).1, ?_⟩
          refine forall_update (P := fun _ (ctx : Connection) =>
            ctx.handler = .closed ∨ ctx.handler = .absent) ?_ fun i _ => (hinv hmain).2 i
          have hj := (hinv hmain).2 j
          unfold receiverReturn
          split <;> exact hj
      | publisher j => exact hinv
      | main =>
          intro hmain'
          have hmain : s.main ≠ .serving := by
            intro hserving
            exact hmain' (by simp [State.returnTo, hserving])
          rw [returnTo_main_connection]
          refine ⟨?_, (hinv hmain).2⟩
          simp only [State.returnTo]
          split <;> exact (hinv hmain).1

/-! ### The program points of the server and of the broker agree -/

/-- The call that a handler waits for. -/
def handlerCall (ctx : Connection) : Call :=
  match ctx.handler with
  | .subscribing => .subscribe
  | .publishing => .pool
  | .pendingCount => ctx.subscription.elim .outside .pendingCount
  | .unsubscribing => ctx.subscription.elim .outside .unsubscribe
  | .freeing => ctx.subscription.elim .outside .free
  | _ => .outside

/-- The program points at which a handler waits for a call of the broker. -/
def isCalling : HandlerPc → Bool
  | .subscribing | .publishing | .pendingCount | .unsubscribing | .freeing => true
  | _ => false

/-- At the other program points a handler is outside the broker. -/
theorem handlerCall_eq_outside {ctx : Connection} (h : isCalling ctx.handler = false) :
    handlerCall ctx = .outside := by
  unfold handlerCall
  split <;> simp_all [isCalling]

/-- The call that a receiver waits for. -/
def receiverCall (ctx : Connection) : Call :=
  match ctx.receiver with
  | .receiving => ctx.subscription.elim .outside fun k => .receive k true
  | _ => .outside

/-- The call that the thread that frees the server waits for. -/
def mainCall (main : MainPc) (registry : List Detached) : Call :=
  match main, registry with
  | .unsubscribing, node :: _ => .unsubscribe node.2
  | .freeing, node :: _ => .free node.2
  | _, _ => .outside

/-- The calls that the threads of the server can be in. -/
def Expected (s : State n) : Client → Call → Prop
  | .handler i, c => c = handlerCall (s.connection i)
  | .receiver i, c => c = receiverCall (s.connection i)
  | .main, c => c = mainCall s.main s.detachedSubscriptions
  | .publisher _, c => c = .outside ∨ c = .pool

/-- Every thread is in the call that its program point in the server tells. -/
def CallInv (s : State n) : Prop :=
  ∀ client : Client, Expected s client (callOf (s.broker.pc (.client client.number)))

/-- The call that a move makes. -/
def callOfMove : MessageBroker.Move n → Call
  | .callPublish _ _ => .pool
  | .callSubscribe _ => .subscribe
  | .callUnsubscribe k => .unsubscribe k
  | .callFree k => .free k
  | .callReceive k tryReceive => .receive k tryReceive
  | .callPendingCount k => .pendingCount k
  | _ => .outside

/-- A thread that makes a call is in it. -/
theorem callOf_of_call {c : Nat} {sh sh' : MessageBroker.Shared n} {move : MessageBroker.Move n}
    {pc : MessageBroker.Pc} {e : Option (MessageBroker.Event n)}
    (h : MessageBroker.call c sh move = some (.step sh' pc e)) : callOf pc = callOfMove move := by
  cases move with
  | callPublish channelName content =>
      obtain ⟨-, rfl, -⟩ := MessageBroker.Outcome.step.inj (Option.some.inj h)
      rfl
  | callSubscribe channelName =>
      obtain ⟨-, rfl, -⟩ := MessageBroker.Outcome.step.inj (Option.some.inj h)
      rfl
  | callUnsubscribe k =>
      simp only [MessageBroker.call, Option.ite_none_right_eq_some, Option.some.injEq,
        MessageBroker.Outcome.step.injEq] at h
      obtain ⟨-, -, rfl, -⟩ := h
      rfl
  | callFree k =>
      simp only [MessageBroker.call, Option.ite_none_right_eq_some, Option.some.injEq] at h
      obtain ⟨-, h⟩ := h
      split at h <;>
      · obtain ⟨-, rfl, -⟩ := MessageBroker.Outcome.step.inj h
        rfl
  | callReceive k tryReceive =>
      simp only [MessageBroker.call, Option.ite_none_right_eq_some, Option.some.injEq,
        MessageBroker.Outcome.step.injEq] at h
      obtain ⟨-, -, rfl, -⟩ := h
      rfl
  | callPendingCount k =>
      simp only [MessageBroker.call, Option.ite_none_right_eq_some, Option.some.injEq,
        MessageBroker.Outcome.step.injEq] at h
      obtain ⟨-, -, rfl, -⟩ := h
      rfl
  | _ => cases h

/-- After a call of the broker by an idle thread, the thread is in the call, and the other
threads are where they were. -/
theorem callOf_of_next {b b' : MessageBroker.State n} {client : Client}
    {move : MessageBroker.Move n} {e : Option (MessageBroker.Event n)}
    (hcall : isCall move = true) (hidle : callOf (b.pc (.client client.number)) = .outside)
    (h : MessageBroker.next b (callAction client move) = some (b', e)) :
    callOf (b'.pc (.client client.number)) = callOfMove move := by
  obtain ⟨sh, pc, hpc, rfl⟩ := next_call hcall (Or.inl (callOf_eq_outside.mp hidle)) h
  show callOf (Function.update b.pc _ pc _) = _
  rw [Function.update_self]
  exact callOf_of_call hpc

section
variable {i : Nat} {running : Bool} {sh : MessageBroker.Shared n}
  {registry registry' : List Detached} {ctx ctx' : Connection} {move : Move}
  {e : Option (Event n)}

/-- A command is the start of a call at most. -/
theorem isCalling_handleCommand (buffer : List UInt8) :
    isCalling (handleCommand apiKey ctx buffer).handler = false := by
  have hstart := isStart_handleCommand apiKey ctx buffer
  cases hpc : (handleCommand apiKey ctx buffer).handler with
  | subscribing | publishing | pendingCount | unsubscribing | freeing =>
      rw [hpc] at hstart
      cases hstart
  | _ => rfl

/-- A handler that takes a step is outside the broker. -/
theorem HandlerStep.not_calling {o : Outcome n}
    (h : HandlerStep apiKey i running sh registry ctx move o) :
    isCalling ctx.handler = false := by
  cases h <;> simp_all [isCalling]

/-- A handler whose step is no call stays outside the broker. -/
theorem HandlerStep.stays_outside
    (h : HandlerStep apiKey i running sh registry ctx move (.step ctx' registry' e)) :
    isCalling ctx'.handler = false := by
  cases h with
  | command hpc _ => exact isCalling_handleCommand _
  | @reply r last hpc => cases last <;> rfl
  | @createReceiver attach hpc => cases attach <;> rfl
  | @createFailed attach hpc => cases attach <;> rfl
  | getId hpc =>
      rcases withId_cases sh ctx fun id => .reply (.okNumber id.toNat) false with
        ⟨id, -, hid⟩ | ⟨-, hid⟩ <;> rw [hid] <;> rfl
  | addDetached hpc =>
      rcases withId_cases sh ctx .linkDetached with ⟨id, -, hid⟩ | ⟨-, hid⟩ <;> rw [hid] <;> rfl
  | addFailed hpc =>
      rcases withId_cases sh ctx fun _ => .reply (.err .failedToDetach) false with
        ⟨id, -, hid⟩ | ⟨-, hid⟩ <;> rw [hid] <;> rfl
  | leave hpc =>
      show isCalling (ite _ _ _) = false
      split_ifs <;> rfl
  | _ => rfl

/-- A receiver that does not exist is in no call. -/
theorem receiverCall_of_absent (h : ctx.receiver = .absent) : receiverCall ctx = .outside := by
  rw [receiverCall, h]

/-- The receiver of a connection does not notice a step of its handler. -/
theorem HandlerStep.receiverCall_eq {o : Outcome n}
    (h : HandlerStep apiKey i running sh registry ctx move o) (hinv : ConnectionInv ctx) :
    (∀ ctx' registry' e, o = .step ctx' registry' e → receiverCall ctx' = receiverCall ctx) ∧
    (∀ ctx' call, o = .call ctx' call → receiverCall ctx' = receiverCall ctx) := by
  unfold ConnectionInv at hinv
  cases h with
  | callSubscribe hpc | callPending hpc _ | callPublish hpc | callUnsubscribe hpc _
  | callFree hpc _ =>
      refine ⟨fun _ _ _ ho => (by cases ho), ?_⟩
      intro ctx' call ho
      cases ho
      rfl
  | command hpc _ =>
      refine ⟨?_, fun _ _ ho => by cases ho⟩
      intro ctx' registry' e ho
      cases ho
      obtain ⟨hsub, -, -, hreceiver⟩ := handleCommand_fields apiKey ctx _
      rw [receiverCall, hsub, hreceiver, receiverCall]
  | createReceiver hpc =>
      rw [hpc] at hinv
      refine ⟨?_, fun _ _ ho => by cases ho⟩
      intro ctx' registry' e ho
      cases ho
      rw [receiverCall_of_absent hinv.2]
      rfl
  | attach hpc _ | detach hpc _ =>
      rw [hpc] at hinv
      refine ⟨?_, fun _ _ ho => by cases ho⟩
      intro ctx' registry' e ho
      cases ho
      rw [receiverCall_of_absent hinv.2]
      exact receiverCall_of_absent hinv.2
  | joinDetach hpc hexit | joinLeave hpc hexit =>
      refine ⟨?_, fun _ _ ho => by cases ho⟩
      intro ctx' registry' e ho
      cases ho
      rw [show receiverCall ctx = .outside by rw [receiverCall, hexit]]
      rfl
  | _ =>
      refine ⟨?_, fun _ _ ho => by cases ho⟩
      intro ctx' registry' e ho
      cases ho
      rfl

/-- A handler that calls the broker waits for that call. -/
theorem HandlerStep.handlerCall_eq {call : MessageBroker.Move n}
    (h : HandlerStep apiKey i running sh registry ctx move (.call ctx' call)) :
    isCall call = true ∧ handlerCall ctx' = callOfMove call := by
  cases h with
  | callSubscribe hpc => exact ⟨rfl, rfl⟩
  | callPending hpc hk => exact ⟨rfl, by simp [handlerCall, hk, callOfMove]⟩
  | callPublish hpc => exact ⟨rfl, rfl⟩
  | callUnsubscribe hpc hk => exact ⟨rfl, by simp [handlerCall, hk, callOfMove]⟩
  | callFree hpc hk => exact ⟨rfl, by simp [handlerCall, hk, callOfMove]⟩

/-- A receiver that takes a step is outside the broker. It stays there, or it waits for the call
it makes. Its handler does not notice. -/
theorem ReceiverStep.calls {o : Outcome n} (h : ReceiverStep i registry ctx move o) :
    receiverCall ctx = .outside ∧
    (∀ ctx' registry' e, o = .step ctx' registry' e →
      receiverCall ctx' = .outside ∧ handlerCall ctx' = handlerCall ctx) ∧
    (∀ ctx' call, o = .call ctx' call → isCall call = true ∧
      receiverCall ctx' = callOfMove call ∧ handlerCall ctx' = handlerCall ctx) := by
  cases h with
  | callReceive hpc hk =>
      refine ⟨by rw [receiverCall, hpc], fun _ _ _ ho => (by cases ho), ?_⟩
      intro ctx' call ho
      cases ho
      exact ⟨rfl, by simp [receiverCall, hk, callOfMove], rfl⟩
  | goOn hpc _ | exit hpc _ | malloc hpc | mallocFailed hpc | write hpc _ | writeFailed hpc
  | sleep hpc =>
      refine ⟨by rw [receiverCall, hpc], ?_, fun _ _ ho => by cases ho⟩
      intro ctx' registry' e ho
      cases ho
      exact ⟨rfl, rfl⟩

/-- A call goes on, or it returns. -/
theorem CallEffect.eq_of_inside {t : Tid n} {sh sh' : MessageBroker.Shared n} {c c' : Call}
    {e : Option (MessageBroker.Event n)} (h : CallEffect t sh c sh' c' e) (hc : c ≠ .outside)
    (hc' : c' ≠ .outside) : c' = c := by
  cases h with
  | stay => rfl
  | enter => exact absurd rfl hc
  | _ => exact absurd rfl hc'

/-- What the return of a call does to the connection of a handler. -/
inductive HandlerReturns (t : Tid n) (sh : MessageBroker.Shared n) (ctx : Connection) :
    MessageBroker.Shared n → Option (MessageBroker.Event n) → Connection → Prop where
  | subscribed (id : UInt64) (name : CString) (x : Nat) (hpc : ctx.handler = .subscribing) :
      HandlerReturns t sh ctx (sh.newSubscription id name x)
        (some (.subscribed t sh.nextSubscription x name))
        { ctx with subscription := some sh.nextSubscription, handler := .activate false }
  | replied {sh' : MessageBroker.Shared n} {e : Option (MessageBroker.Event n)} (r : Reply)
      (hpc : ctx.handler = .publishing ∨ ctx.handler = .pendingCount ∨
        (ctx.handler = .subscribing ∧ Quiet e))
      (hsame : SameSubscriptions sh sh') :
      HandlerReturns t sh ctx sh' e { ctx with handler := .reply r false }
  | unsubscribed {sh' : MessageBroker.Shared n} (k : Nat) (code : Int)
      (hpc : ctx.handler = .unsubscribing) (hsame : SameSubscriptions sh sh') :
      HandlerReturns t sh ctx sh' (some (.unsubscribed t k code)) { ctx with handler := .callFree }
  | freed (k : Nat) (hpc : ctx.handler = .freeing) (hk : ctx.subscription = some k)
      (hlive : (sh.subscription k).released = false) :
      HandlerReturns t sh ctx
        (sh.setSubscription k { sh.subscription k with released := true }) (some (.freed t k))
        { ctx with subscription := none, handler := .closed }

/-- A handler that returns from the call it waits for. -/
theorem handlerReturn_returns {t : Tid n} {sh' : MessageBroker.Shared n}
    {e : Option (MessageBroker.Event n)}
    (heffect : CallEffect t sh (handlerCall ctx) sh' .outside e)
    (hinside : handlerCall ctx ≠ .outside) :
    HandlerReturns t sh ctx sh' e (handlerReturn ctx e) := by
  generalize hc : handlerCall ctx = c at heffect hinside
  cases hpc : ctx.handler with
  | subscribing =>
      obtain rfl : Call.subscribe = c := by simpa [handlerCall, hpc] using hc
      cases heffect with
      | leave h hsame he =>
          -- The subscribe has failed.
          have hreply : handlerReturn ctx e =
              { ctx with handler := .reply (.err .failedToSubscribe) false } := by
            unfold handlerReturn
            rw [hpc]
            split
            · have hreturn := he _ rfl
              cases hreturn
            all_goals simp_all
          rw [hreply]
          exact .replied _ (Or.inr (Or.inr ⟨hpc, he⟩)) hsame
      | subscribed id name x =>
          rw [show handlerReturn ctx _ = _ by simp only [handlerReturn, hpc]; rfl]
          exact .subscribed id name x hpc
  | publishing =>
      obtain rfl : Call.pool = c := by simpa [handlerCall, hpc] using hc
      cases heffect with
      | leave h hsame he =>
          have hreply : ∃ r, handlerReturn ctx e = { ctx with handler := .reply r false } := by
            unfold handlerReturn
            rw [hpc]
            split <;> first | exact ⟨_, rfl⟩ | simp_all
          obtain ⟨r, hr⟩ := hreply
          rw [hr]
          exact .replied r (Or.inl hpc) hsame
  | pendingCount =>
      cases hk : ctx.subscription with
      | none => exact absurd (by simpa [handlerCall, hpc, hk] using hc.symm) hinside
      | some k =>
          obtain rfl : Call.pendingCount k = c := by simpa [handlerCall, hpc, hk] using hc
          cases heffect with
          | leave h => rcases h with h | h | h <;> cases h
          | pending _ count hsame =>
              rw [show handlerReturn ctx _ = { ctx with handler := .reply (.okNumber count) false }
                by simp only [handlerReturn, hpc]]
              exact .replied _ (Or.inr (Or.inl hpc)) hsame
  | unsubscribing =>
      cases hk : ctx.subscription with
      | none => exact absurd (by simpa [handlerCall, hpc, hk] using hc.symm) hinside
      | some k =>
          obtain rfl : Call.unsubscribe k = c := by simpa [handlerCall, hpc, hk] using hc
          cases heffect with
          | leave h => rcases h with h | h | h <;> cases h
          | unsubscribed _ code hsame =>
              rw [show handlerReturn ctx _ = { ctx with handler := .callFree }
                by simp only [handlerReturn, hpc]]
              exact .unsubscribed k code hpc hsame
  | freeing =>
      cases hk : ctx.subscription with
      | none => exact absurd (by simpa [handlerCall, hpc, hk] using hc.symm) hinside
      | some k =>
          obtain rfl : Call.free k = c := by simpa [handlerCall, hpc, hk] using hc
          cases heffect with
          | leave h => rcases h with h | h | h <;> cases h
          | freed _ hlive =>
              rw [show handlerReturn ctx _ = { ctx with subscription := none, handler := .closed }
                by simp only [handlerReturn, hpc]]
              exact .freed k hpc hk hlive
  | _ => exact absurd (by simpa [handlerCall, hpc] using hc.symm) hinside

/-- A handler is outside the broker after the return of its call, and its receiver does not
notice. -/
theorem HandlerReturns.calls {t : Tid n} {sh' : MessageBroker.Shared n}
    {e : Option (MessageBroker.Event n)} (h : HandlerReturns t sh ctx sh' e ctx')
    (hinv : ConnectionInv ctx) :
    handlerCall ctx' = .outside ∧ receiverCall ctx' = receiverCall ctx := by
  unfold ConnectionInv at hinv
  cases h with
  | subscribed id name x hpc =>
      rw [hpc] at hinv
      rw [receiverCall_of_absent hinv.2]
      exact ⟨rfl, receiverCall_of_absent hinv.2⟩
  | replied r hpc hsame => exact ⟨rfl, rfl⟩
  | unsubscribed k code hpc hsame => exact ⟨rfl, rfl⟩
  | freed k hpc hk hlive =>
      rw [hpc] at hinv
      rw [receiverCall_of_absent hinv.2]
      exact ⟨rfl, receiverCall_of_absent hinv.2⟩

/-- A receiver is outside the broker after the return of its call, and its handler does not
notice. -/
theorem receiverReturn_calls (e : Option (MessageBroker.Event n))
    (hinside : receiverCall ctx ≠ .outside) :
    receiverCall (receiverReturn ctx e) = .outside ∧
      handlerCall (receiverReturn ctx e) = handlerCall ctx := by
  have hpc : ctx.receiver = .receiving := by
    unfold receiverCall at hinside
    split at hinside
    · assumption
    · exact absurd rfl hinside
  unfold receiverReturn
  rw [hpc]
  split
  · exact ⟨rfl, rfl⟩
  · exact ⟨rfl, rfl⟩
  · rename_i hnot _
    exact absurd rfl hnot

end

/-- A write to a connection that its other threads do not notice. -/
theorem expected_setConnection {s : State n} {j : Nat} {ctx : Connection} {client : Client}
    {c : Call}
    (hhandler : client = .handler j → handlerCall ctx = handlerCall (s.connection j))
    (hreceiver : client = .receiver j → receiverCall ctx = receiverCall (s.connection j))
    (h : Expected s client c) : Expected (s.setConnection j ctx) client c := by
  cases client with
  | handler i =>
      show c = handlerCall (Function.update s.connection j ctx i)
      by_cases hij : i = j
      · subst hij
        rw [Function.update_self, hhandler rfl]
        exact h
      · rw [Function.update_of_ne hij]
        exact h
  | receiver i =>
      show c = receiverCall (Function.update s.connection j ctx i)
      by_cases hij : i = j
      · subst hij
        rw [Function.update_self, hreceiver rfl]
        exact h
      · rw [Function.update_of_ne hij]
        exact h
  | main => exact h
  | publisher j => exact h

/-- The other threads do not notice a step of the thread that frees the server. -/
theorem expected_of_ne_main {s s' : State n} {client : Client} {c : Call}
    (hconn : s'.connection = s.connection) (hne : client ≠ .main) (h : Expected s client c) :
    Expected s' client c := by
  cases client with
  | handler i =>
      show c = handlerCall (s'.connection i)
      rw [hconn]
      exact h
  | receiver i =>
      show c = receiverCall (s'.connection i)
      rw [hconn]
      exact h
  | main => exact absurd rfl hne
  | publisher j => exact h

/-- `CallInv` after a step of one thread. -/
theorem CallInv.step {s s' : State n} (hinv : CallInv s) (client₀ : Client)
    (hpc : ∀ client, client ≠ client₀ →
      s'.broker.pc (.client client.number) = s.broker.pc (.client client.number))
    (hother : ∀ client c, client ≠ client₀ → Expected s client c → Expected s' client c)
    (hself : Expected s' client₀ (callOf (s'.broker.pc (.client client₀.number)))) :
    CallInv s' := by
  intro client
  by_cases hclient : client = client₀
  · rw [hclient]
    exact hself
  · rw [hpc client hclient]
    exact hother client _ hclient (hinv client)

/-- `CallInv` holds in every state of a run. -/
theorem callInv_of_run {K : State n → Action n → Prop} {tr : List (Event n)} {s : State n}
    (h : (machine n capacity hcap apiKey).RunIf K tr s) : CallInv s := by
  refine h.induction (I := fun _ s => CallInv s) ?_ ?_
  · intro client
    cases client <;> first | rfl | exact Or.inl rfl
  · intro tr s a s' e hrun hinv hK hnext
    have hconn := connectionInv_of_run hrun
    have hclosed := closedInv_of_run hrun
    -- Handlers change the registry only before the server is freed.
    have hserving : ∀ {i running sh registry move} {o : Outcome n},
        HandlerStep apiKey i running sh registry (s.connection i) move o → s.main = .serving := by
      intro i running sh registry move o hstep
      by_contra hmain
      exact hstep.not_closed ((hclosed hmain).2 i)
    cases next_netStep hnext with
    | accept hrunning =>
        have hno := noConnection_of_run (hrun.mono fun _ _ _ => trivial) _ le_rfl
        intro client
        exact expected_setConnection (fun _ => by rw [hno]; rfl) (fun _ => by rw [hno]; rfl)
          (hinv client)
    | @handler j move ctx registry e hf =>
        have hstep := clientHandler_step rfl hf
        have hsame : handlerCall ctx = handlerCall (s.connection j) := by
          rw [handlerCall_eq_outside hstep.not_calling, handlerCall_eq_outside hstep.stays_outside]
        have hreceiver := (hstep.receiverCall_eq (hconn j)).1 _ _ _ rfl
        intro client
        have hclient := expected_setConnection (fun _ => hsame) (fun _ => hreceiver) (hinv client)
        cases client with
        | main =>
            have hmain : callOf (s.broker.pc (.client Client.main.number)) = _ := hinv .main
            rw [hserving hstep] at hmain
            show callOf _ = mainCall s.main registry
            rw [hserving hstep]
            exact hmain
        | _ => exact hclient
    | @handlerCall j move ctx call b e hf hb =>
        have hstep := clientHandler_step rfl hf
        obtain ⟨hcall, hnew⟩ := hstep.handlerCall_eq
        have hreceiver := (hstep.receiverCall_eq (hconn j)).2 _ _ rfl
        have hidle : callOf (s.broker.pc (.client (Client.handler j).number)) = .outside := by
          rw [show callOf _ = _ from hinv (.handler j), handlerCall_eq_outside hstep.not_calling]
        refine hinv.step (.handler j) (fun client hne => pc_of_call hb hne) ?_ ?_
        · intro client c hne hc
          exact expected_setConnection (s := { s with broker := b })
            (fun h => absurd h hne) (fun _ => hreceiver) hc
        · show callOf (b.pc _) = handlerCall (Function.update s.connection j ctx j)
          rw [callOf_of_next hcall hidle hb, Function.update_self, hnew]
    | @receiver j move ctx registry e hf =>
        have hstep := subscriberReceiverThread_step hf
        obtain ⟨hold, hstay, -⟩ := hstep.calls
        obtain ⟨hnew, hsame⟩ := hstay _ _ _ rfl
        have hregistry : registry = s.detachedSubscriptions := by
          cases hstep <;> rfl
        subst hregistry
        intro client
        exact expected_setConnection (fun _ => hsame) (fun _ => by rw [hold, hnew]) (hinv client)
    | @receiverCall j move ctx call b e hf hb =>
        obtain ⟨hold, -, hgo⟩ := (subscriberReceiverThread_step hf).calls
        obtain ⟨hcall, hnew, hsame⟩ := hgo _ _ rfl
        have hidle : callOf (s.broker.pc (.client (Client.receiver j).number)) = .outside := by
          rw [show callOf _ = _ from hinv (.receiver j), hold]
        refine hinv.step (.receiver j) (fun client hne => pc_of_call hb hne) ?_ ?_
        · intro client c hne hc
          exact expected_setConnection (s := { s with broker := b })
            (fun _ => hsame) (fun h => absurd h hne) hc
        · show callOf (b.pc _) = receiverCall (Function.update s.connection j ctx j)
          rw [callOf_of_next hcall hidle hb, Function.update_self, hnew]
    | stop => exact hinv
    | freeStart hmain hclosed =>
        refine hinv.step .main (fun _ _ => rfl) (fun _ _ => expected_of_ne_main rfl) ?_
        show callOf _ = Call.outside
        rw [show callOf _ = _ from hinv .main, hmain]
        rfl
    | freeEnd hmain hnil =>
        refine hinv.step .main (fun _ _ => rfl) (fun _ _ => expected_of_ne_main rfl) ?_
        show callOf _ = Call.outside
        rw [show callOf _ = _ from hinv .main, hmain]
        rfl
    | @freeUnsubscribe node rest b e hmain hcons hb =>
        have hidle : callOf (s.broker.pc (.client Client.main.number)) = .outside := by
          rw [show callOf _ = _ from hinv .main, hmain]
          rfl
        refine hinv.step .main (fun client hne => pc_of_call hb hne)
          (fun _ _ => expected_of_ne_main rfl) ?_
        show callOf (b.pc _) = mainCall .unsubscribing s.detachedSubscriptions
        rw [callOf_of_next rfl hidle hb, hcons]
        rfl
    | @freeFree node rest b e hmain hcons hb =>
        have hidle : callOf (s.broker.pc (.client Client.main.number)) = .outside := by
          rw [show callOf _ = _ from hinv .main, hmain]
          rfl
        refine hinv.step .main (fun client hne => pc_of_call hb hne)
          (fun _ _ => expected_of_ne_main rfl) ?_
        show callOf (b.pc _) = mainCall .freeing s.detachedSubscriptions
        rw [callOf_of_next rfl hidle hb, hcons]
        rfl
    | @publish j channelName content b e hb =>
        refine hinv.step (.publisher j) (fun client hne => pc_of_call hb hne)
          (fun _ _ _ hc => hc) ?_
        show callOf (b.pc _) = .outside ∨ callOf (b.pc _) = .pool
        rcases hinv (.publisher j) with hidle | hpool
        · exact Or.inr (callOf_of_next rfl hidle hb)
        · have heffect := next_callEffect
            (a := callAction (.publisher j) (.callPublish channelName content)) hb
          rw [show actor (callAction (.publisher j) _) = .client (Client.publisher j).number from rfl,
            hpool] at heffect
          by_cases hout : callOf (b.pc (.client (Client.publisher j).number)) = .outside
          · exact Or.inl hout
          · exact Or.inr (heffect.eq_of_inside (by simp) hout)
    | @inside a b e hinside hb hstay =>
        have heffect := next_callEffect hb
        intro client
        show Expected s client (callOf (b.pc (.client client.number)))
        by_cases hactor : Tid.client client.number = actor a
        · have hnumber : clientNumber a = some client.number :=
            actor_of_clientNumber.mp hactor.symm
          rw [← hactor] at heffect
          rw [heffect.eq_of_inside
            (fun h => not_idle_of_inside hinside hb hnumber (callOf_eq_outside.mp h))
            (fun h => hstay _ hnumber (callOf_eq_outside.mp h))]
          exact hinv client
        · rw [pc_of_ne_actor hb hactor]
          exact hinv client
    | @back a client b e hinside hb hclient hidle =>
        have heffect := next_callEffect hb
        have hactor : actor a = .client client.number := actor_of_clientNumber.mpr hclient
        rw [hactor, hidle] at heffect
        have hcalling : callOf (s.broker.pc (.client client.number)) ≠ .outside :=
          fun h => not_idle_of_inside hinside hb hclient (callOf_eq_outside.mp h)
        have hpc : ∀ client', client' ≠ client →
            b.pc (.client client'.number) = s.broker.pc (.client client'.number) := by
          intro client' hne
          refine pc_of_ne_actor hb ?_
          rw [hactor]
          exact fun h => hne (number_injective (Tid.client.inj h))
        refine hinv.step client (fun client' hne => by rw [returnTo_broker]; exact hpc client' hne)
          ?_ ?_
        · intro client' c hne hc
          cases client with
          | handler j =>
              rw [show callOf _ = _ from hinv (.handler j)] at heffect hcalling
              have hcalls := (handlerReturn_returns heffect hcalling).calls (hconn j)
              exact expected_setConnection (s := { s with broker := b })
                (fun h => absurd h hne) (fun _ => hcalls.2) hc
          | receiver j =>
              rw [show callOf _ = _ from hinv (.receiver j)] at hcalling
              exact expected_setConnection (s := { s with broker := b })
                (fun _ => (receiverReturn_calls e hcalling).2) (fun h => absurd h hne) hc
          | publisher j => exact hc
          | main => exact expected_of_ne_main (returnTo_main_connection _ e) hne hc
        · rw [returnTo_broker, show callOf (b.pc (.client client.number)) = .outside from
            callOf_eq_outside.mpr hidle]
          cases client with
          | handler j =>
              rw [show callOf _ = _ from hinv (.handler j)] at heffect hcalling
              show Call.outside = handlerCall (Function.update s.connection j _ j)
              rw [Function.update_self]
              exact ((handlerReturn_returns heffect hcalling).calls (hconn j)).1.symm
          | receiver j =>
              rw [show callOf _ = _ from hinv (.receiver j)] at hcalling
              show Call.outside = receiverCall (Function.update s.connection j _ j)
              rw [Function.update_self]
              exact (receiverReturn_calls e hcalling).1.symm
          | publisher j => exact Or.inl rfl
          | main =>
              rw [show callOf _ = _ from hinv .main] at hcalling
              cases hmain : s.main with
              | unsubscribing => simp [Expected, State.returnTo, mainCall]
              | freeing => simp [Expected, State.returnTo, mainCall]
              | _ => exact absurd (by simp [mainCall, hmain]) hcalling

end

end

end Miez.Proofs.NetworkServer
