import Miez.Lib.Ownership
import Miez.Proofs.MessageBroker.Delivery
import Miez.Proofs.NetworkServer.Calls

/-!
# `Miez.Proofs.NetworkServer.Ownership`: every subscription has one owner

A connection owns the subscription it points to, from the return of `message_broker_subscribe` or
the step in which `_find_and_remove_detached` unlinks the node, to the step in which
`_add_detached` links a new node or the subscription is freed. After the link the connection
still has the pointer for one more statement, but the registry owns the subscription. `heldBy` is
what a connection owns.

`OwnerStep` lists what a step does to the owners, and the invariants follow from it. The ids of
the registry are the ids of its subscriptions, so they are different as long as the subscriber
ids are.
-/

set_option autoImplicit false

namespace Miez.Proofs.NetworkServer

open Miez.Lib
open Miez.NetworkServer
open Miez.ThreadPool (Tid)
open Miez.Proofs

section
variable {n : Nat}

/-! ### The registry -/

/-- `_find_and_remove_detached` takes one node out of the registry. -/
theorem findAndRemoveDetached_eq_some {registry rest : List Detached} {id : UInt64} {k : Nat}
    (h : findAndRemoveDetached registry id = some (k, rest)) :
    ∃ pre post, registry = pre ++ (id, k) :: post ∧ rest = pre ++ post := by
  induction registry generalizing k rest with
  | nil => cases h
  | cons node registry ih =>
      unfold findAndRemoveDetached at h
      split at h
      · rename_i hid
        obtain ⟨rfl, rfl⟩ := Prod.mk.inj (Option.some.inj h)
        exact ⟨[], registry, by rw [← hid]; rfl, rfl⟩
      · obtain ⟨⟨k', rest'⟩, hrest, heq⟩ := Option.map_eq_some_iff.mp h
        obtain ⟨rfl, rfl⟩ := Prod.mk.inj heq
        obtain ⟨pre, post, rfl, rfl⟩ := ih hrest
        exact ⟨node :: pre, post, rfl, rfl⟩

/-! ### What a step does to the owners -/

/-- The subscription that a connection owns. -/
def heldBy (ctx : Connection) : Option Nat :=
  match ctx.handler with
  | .detachGetId | .faulted => none
  | _ => ctx.subscription

/-- What the connections own. -/
def holders (s : State n) (i : Nat) : Option Nat := heldBy (s.connection i)

/-- The event changes an owner. -/
def isTransfer : Event n → Bool
  | .attached _ _ _ | .linked _ _ _ | .broker (.subscribed _ _ _ _) | .broker (.freed _ _) => true
  | _ => false

/-- What a step does to the owners of the subscriptions. -/
inductive OwnerStep (s s' : State n) (e : Option (Event n)) : Prop where
  | same (hheld : holders s' = holders s)
      (hregistry : s'.detachedSubscriptions = s.detachedSubscriptions)
      (hsame : SameSubscriptions s.broker.shared s'.broker.shared)
      (he : ∀ x, e = some x → isTransfer x = false)
  | subscribed (i : Nat) (t : Tid n) (id : UInt64) (name : CString) (x : Nat)
      (hfree : holders s i = none)
      (hheld : holders s' = Function.update (holders s) i (some s.broker.shared.nextSubscription))
      (hregistry : s'.detachedSubscriptions = s.detachedSubscriptions)
      (hshared : s'.broker.shared = s.broker.shared.newSubscription id name x)
      (he : e = some (.broker (.subscribed t s.broker.shared.nextSubscription x name)))
  | attached (i : Nat) (id : UInt64) (k : Nat) (pre post : List Detached)
      (hfree : holders s i = none)
      (hheld : holders s' = Function.update (holders s) i (some k))
      (hold : s.detachedSubscriptions = pre ++ (id, k) :: post)
      (hnew : s'.detachedSubscriptions = pre ++ post) (hbroker : s'.broker = s.broker)
      (he : e = some (.attached i id k))
  | linked (i : Nat) (id : UInt64) (k : Nat) (hpc : (s.connection i).handler = .linkDetached id)
      (hk : holders s i = some k) (hheld : holders s' = Function.update (holders s) i none)
      (hregistry : s'.detachedSubscriptions = (id, k) :: s.detachedSubscriptions)
      (hbroker : s'.broker = s.broker) (he : e = some (.linked i id k))
  | freed (i : Nat) (t : Tid n) (k : Nat) (hk : holders s i = some k)
      (hheld : holders s' = Function.update (holders s) i none)
      (hregistry : s'.detachedSubscriptions = s.detachedSubscriptions)
      (hshared : s'.broker.shared = s.broker.shared.setSubscription k
        { s.broker.shared.subscription k with released := true })
      (he : e = some (.broker (.freed t k)))
  | freedNode (t : Tid n) (id : UInt64) (k : Nat) (hheld : holders s' = holders s)
      (hregistry : s.detachedSubscriptions = (id, k) :: s'.detachedSubscriptions)
      (hshared : s'.broker.shared = s.broker.shared.setSubscription k
        { s.broker.shared.subscription k with released := true })
      (he : e = some (.broker (.freed t k)))

/-- What the connections own after a write to one of them. -/
theorem holders_update {s s' : State n} {j : Nat} {ctx : Connection}
    (h : s'.connection = Function.update s.connection j ctx) :
    holders s' = Function.update (holders s) j (heldBy ctx) := by
  funext i
  show heldBy (s'.connection i) = _
  rw [h]
  by_cases hij : i = j
  · subst hij
    rw [Function.update_self, Function.update_self]
  · rw [Function.update_of_ne hij, Function.update_of_ne hij]
    rfl

/-- A write to a connection that owns the same afterwards. -/
theorem holders_eq_of_update {s s' : State n} {j : Nat} {ctx : Connection}
    (h : s'.connection = Function.update s.connection j ctx)
    (hheld : heldBy ctx = heldBy (s.connection j)) : holders s' = holders s := by
  rw [holders_update h, hheld]
  exact Function.update_eq_self j (holders s)

section
variable {apiKey : Option CString} {i : Nat} {running : Bool} {sh : MessageBroker.Shared n}
  {registry registry' : List Detached} {ctx ctx' : Connection} {move : Move}
  {e : Option (Event n)}

/-- The program points at which a connection owns what it points to. -/
theorem heldBy_eq (h₁ : ctx.handler ≠ .detachGetId) (h₂ : ctx.handler ≠ .faulted) :
    heldBy ctx = ctx.subscription := by
  unfold heldBy
  split
  · exact absurd ‹_› h₁
  · exact absurd ‹_› h₂
  · rfl

/-- A command does not change what a connection owns. -/
theorem heldBy_handleCommand (buffer : List UInt8) :
    heldBy (handleCommand apiKey ctx buffer) = ctx.subscription := by
  unfold handleCommand
  split
  · rfl
  · split_ifs <;> rfl
  · unfold handlePublish
    split_ifs <;> rfl
  · split_ifs <;> rfl
  · split_ifs <;> rfl
  · rfl
  · rfl

/-- A subscription that a connection owns has an id. -/
theorem getId_of_live {k : Nat} (hk : ctx.subscription = some k)
    (hlive : (sh.subscription k).released = false) :
    getId sh ctx = some (sh.subscription k).id := by
  simp [getId, hk, hlive]

/-- What a step of a handler outside the broker does to the owners. -/
inductive HandlerOwner (i : Nat) (ctx ctx' : Connection) (registry registry' : List Detached) :
    Option (Event n) → Prop where
  | same {e : Option (Event n)} (hheld : heldBy ctx' = heldBy ctx)
      (hregistry : registry' = registry) (he : ∀ x, e = some x → isTransfer x = false) :
      HandlerOwner i ctx ctx' registry registry' e
  | attached (id : UInt64) (k : Nat) (pre post : List Detached) (hfree : heldBy ctx = none)
      (hheld : heldBy ctx' = some k) (hold : registry = pre ++ (id, k) :: post)
      (hnew : registry' = pre ++ post) :
      HandlerOwner i ctx ctx' registry registry' (some (.attached i id k))
  | linked (id : UInt64) (k : Nat) (hpc : ctx.handler = .linkDetached id)
      (hk : heldBy ctx = some k) (hheld : heldBy ctx' = none)
      (hregistry : registry' = (id, k) :: registry) :
      HandlerOwner i ctx ctx' registry registry' (some (.linked i id k))

/-- A call of a handler does not change what its connection owns. -/
theorem HandlerStep.heldBy_call {call : MessageBroker.Move n}
    (h : HandlerStep apiKey i running sh registry ctx move (.call ctx' call)) :
    heldBy ctx' = heldBy ctx := by
  cases h with
  | callSubscribe hpc | callPending hpc _ | callPublish hpc | callUnsubscribe hpc _
  | callFree hpc _ => simp [heldBy, hpc]

/-- A step of a receiver does not change what its connection owns. -/
theorem ReceiverStep.owner {o : Outcome n} (h : ReceiverStep i registry ctx move o) :
    (∀ ctx' registry' e, o = .step ctx' registry' e → heldBy ctx' = heldBy ctx ∧
      registry' = registry ∧ ∀ x, e = some x → isTransfer x = false) ∧
    (∀ ctx' call, o = .call ctx' call → heldBy ctx' = heldBy ctx) := by
  have hheld : ∀ pc, heldBy { ctx with receiver := pc } = heldBy ctx := fun _ => rfl
  cases h with
  | write =>
      refine ⟨?_, fun _ _ h => by cases h⟩
      rintro ctx' registry' e ⟨⟩
      refine ⟨hheld _, rfl, ?_⟩
      rintro x ⟨⟩
      rfl
  | callReceive =>
      refine ⟨fun _ _ _ h => (by cases h), ?_⟩
      rintro ctx' call ⟨⟩
      exact hheld _
  | _ =>
      refine ⟨?_, fun _ _ h => by cases h⟩
      rintro ctx' registry' e ⟨⟩
      refine ⟨hheld _, rfl, ?_⟩
      rintro x ⟨⟩

/-- A step of a handler changes the owners when it takes a node out of the registry and when it
puts one in. -/
theorem HandlerStep.owner
    (h : HandlerStep apiKey i running sh registry ctx move (.step ctx' registry' e))
    (hinv : ConnectionInv ctx)
    (hlive : ∀ k, heldBy ctx = some k → (sh.subscription k).released = false) :
    HandlerOwner i ctx ctx' registry registry' e := by
  have hnone : ∀ x, (none : Option (Event n)) = some x → isTransfer x = false := by
    intro x hx
    cases hx
  have hsome : ∀ {y : Event n}, isTransfer y = false → ∀ x, some y = some x →
      isTransfer x = false := by
    intro y hy x hx
    obtain rfl := Option.some.inj hx
    exact hy
  -- A subscription that is owned has an id, so these reads do not fault.
  have hread : ∀ (pc : UInt64 → HandlerPc), heldBy ctx = ctx.subscription →
      ctx.subscription ≠ none → ∃ id, withId sh ctx pc = pc id := by
    intro pc hheld hsub
    obtain ⟨k, hk⟩ := Option.ne_none_iff_exists'.mp hsub
    have hid := getId_of_live hk (hlive k (hheld.trans hk))
    exact ⟨_, by rw [withId, hid]⟩
  unfold ConnectionInv at hinv
  cases h with
  | command hpc _ =>
      exact .same (by rw [heldBy_handleCommand, heldBy_eq (by simp [hpc]) (by simp [hpc])]) rfl
        (hsome rfl)
  | @reply r last hpc =>
      refine .same ?_ rfl (hsome rfl)
      cases last <;> simp [heldBy, hpc]
  | @createReceiver attach hpc =>
      refine .same ?_ rfl (hsome rfl)
      cases attach <;> simp [heldBy, hpc]
  | @createFailed attach hpc =>
      refine .same ?_ rfl hnone
      cases attach <;> simp [heldBy, hpc]
  | getId hpc =>
      rw [hpc] at hinv
      obtain ⟨id, hid⟩ := hread (fun id => .reply (.okNumber id.toNat) false)
        (by simp [heldBy, hpc]) hinv.1
      rw [hid]
      exact .same (by simp [heldBy, hpc]) rfl hnone
  | @attach id k rest hpc hfind =>
      rw [hpc] at hinv
      obtain ⟨pre, post, hold, hnew⟩ := findAndRemoveDetached_eq_some hfind
      exact .attached id k pre post (by simp [heldBy, hpc, hinv.1]) rfl hold hnew
  | joinDetach hpc _ | joinLeave hpc _ => exact .same (by simp [heldBy, hpc]) rfl (hsome rfl)
  | addDetached hpc =>
      rw [hpc] at hinv
      obtain ⟨id, hid⟩ := hread .linkDetached (by simp [heldBy, hpc]) hinv.1.1
      rw [hid]
      exact .same (by simp [heldBy, hpc]) rfl hnone
  | addFailed hpc =>
      rw [hpc] at hinv
      obtain ⟨id, hid⟩ := hread (fun _ => .reply (.err .failedToDetach) false)
        (by simp [heldBy, hpc]) hinv.1.1
      rw [hid]
      exact .same (by simp [heldBy, hpc]) rfl hnone
  | @link id k hpc hk => exact .linked id k hpc (by simp [heldBy, hpc, hk]) rfl rfl
  | leave hpc =>
      refine .same ?_ rfl hnone
      split_ifs <;> simp [heldBy, hpc]
  | _ => exact .same (by simp [heldBy, *]) rfl hnone

end

section
variable {t : Tid n} {sh sh' : MessageBroker.Shared n} {c c' : Call}
  {e : Option (MessageBroker.Event n)}

/-- The broker's event is about no owner. -/
def keepsOwners : MessageBroker.Event n → Bool
  | .subscribed _ _ _ _ | .freed _ _ => false
  | _ => true

/-- A step that shows no return shows nothing about an owner. -/
theorem Quiet.keepsOwners (he : Quiet e) : ∀ x, e = some x → keepsOwners x = true := by
  intro x hx
  have hreturn := he x hx
  cases x with
  | subscribed => cases hreturn
  | freed => cases hreturn
  | _ => rfl

/-- Only the return of a subscribe and of a free changes the subscriptions. -/
theorem CallEffect.keepsOwners (h : CallEffect t sh c sh' c' e)
    (hc : c' ≠ .outside ∨ (c ≠ .subscribe ∧ ∀ k, c ≠ .free k)) :
    SameSubscriptions sh sh' ∧ ∀ x, e = some x → keepsOwners x = true := by
  cases h with
  | stay hsame he => exact ⟨hsame, he.keepsOwners⟩
  | enter hsame he => exact ⟨hsame, he.keepsOwners⟩
  | leave _ hsame he => exact ⟨hsame, he.keepsOwners⟩
  | subscribed =>
      rcases hc with hc | hc
      · exact absurd rfl hc
      · exact absurd rfl hc.1
  | freed k =>
      rcases hc with hc | hc
      · exact absurd rfl hc
      · exact absurd rfl (hc.2 k)
  | unsubscribed k code hsame =>
      refine ⟨hsame, ?_⟩
      rintro x ⟨⟩
      rfl
  | received k tryReceive hsame he =>
      refine ⟨hsame, ?_⟩
      rintro x ⟨⟩
      rcases he with rfl | ⟨x, msg, rfl⟩
      · rfl
      · rfl
  | pending k count hsame =>
      refine ⟨hsame, ?_⟩
      rintro x ⟨⟩
      rfl

/-- An event of the broker that is about no owner transfers nothing. -/
theorem isTransfer_broker (h : ∀ x, e = some x → keepsOwners x = true) :
    ∀ x, e.map Event.broker = some x → isTransfer x = false := by
  intro x hx
  obtain ⟨y, hy, rfl⟩ := Option.map_eq_some_iff.mp hx
  have := h y hy
  cases y with
  | subscribed => cases this
  | freed => cases this
  | _ => rfl

/-- The event of a call transfers nothing when the event of the broker is about no owner. -/
theorem isTransfer_callEvent {i : Nat} {ctx : Connection}
    (h : ∀ x, e = some x → keepsOwners x = true) :
    ∀ x, e.map (callEvent i ctx) = some x → isTransfer x = false := by
  intro x hx
  obtain ⟨y, hy, rfl⟩ := Option.map_eq_some_iff.mp hx
  unfold callEvent
  split
  · rfl
  · exact isTransfer_broker h _ (by rw [hy]; rfl)

end

section
variable {capacity : UInt64} {hcap : capacity ≠ 0} {apiKey : Option CString}

/-- The call of a dispatcher is a task, or there is none. -/
theorem callOf_dispatcher {K : MessageBroker.State n → MessageBroker.Action n → Prop}
    {tr : List (MessageBroker.Event n)} {b : MessageBroker.State n}
    (h : (MessageBroker.machine n capacity hcap).RunIf K tr b)
    (d : Fin n) : callOf (b.pc (.dispatcher d)) = .outside ∨
      callOf (b.pc (.dispatcher d)) = .task := by
  refine h.induction (I := fun _ b => callOf (b.pc (.dispatcher d)) = .outside ∨
    callOf (b.pc (.dispatcher d)) = .task) (Or.inl rfl) ?_
  intro tr b a b' e _ hinv _ hnext
  by_cases hactor : Tid.dispatcher d = actor a
  · have heffect := next_callEffect hnext
    rw [← hactor] at heffect
    rcases hinv with hinv | hinv
    · -- A dispatcher calls nothing by itself.
      rcases MessageBroker.next_cases hnext with ⟨pa, pool, t, pc, e', hpa, hstep, -, -, -, rfl⟩ |
          ⟨t, move, sh, pc, rfl, hf, -⟩ | ⟨t, -, rfl⟩
      · cases hstep with
        | @dispatcher d' pool sh hidle hf =>
            show callOf (Function.update b.pc (.dispatcher d') _ (.dispatcher d)) = .outside ∨
              callOf (Function.update b.pc (.dispatcher d') _ (.dispatcher d)) = .task
            by_cases hd : d = d'
            · subst hd
              rw [Function.update_self]
              unfold MessageBroker.dispatcherPc
              split
              · exact Or.inr rfl
              · exact Or.inl rfl
            · rw [Function.update_of_ne (fun h => hd (Tid.dispatcher.inj h))]
              exact Or.inl hinv
        | @client c move pool sh hf hpc =>
            left
            show callOf (Function.update b.pc (.client c) pc (.dispatcher d)) = .outside
            rw [Function.update_of_ne (by simp)]
            exact hinv
      · obtain rfl : Tid.dispatcher d = t := hactor
        rw [callOf_eq_outside.mp hinv] at hf
        cases hf
      · exact Or.inl hinv
    · rw [hinv] at heffect
      generalize callOf (b'.pc (.dispatcher d)) = c at heffect
      cases heffect with
      | stay => exact Or.inr rfl
      | leave => exact Or.inl rfl
  · rw [pc_of_ne_actor hnext hactor]
    exact hinv

/-- The return of a receiver changes its program point only. -/
theorem receiverReturn_fields (ctx : Connection) (e : Option (MessageBroker.Event n)) :
    (receiverReturn ctx e).handler = ctx.handler ∧
      (receiverReturn ctx e).subscription = ctx.subscription := by
  unfold receiverReturn
  split
  · exact ⟨rfl, rfl⟩
  · exact ⟨rfl, rfl⟩
  · exact ⟨rfl, rfl⟩

/-- A receiver that is back from the broker owns nothing else than before. -/
theorem heldBy_receiverReturn (ctx : Connection) (e : Option (MessageBroker.Event n)) :
    heldBy (receiverReturn ctx e) = heldBy ctx := by
  rw [heldBy, heldBy, (receiverReturn_fields ctx e).1, (receiverReturn_fields ctx e).2]

/-- What the return of a handler from the broker does to the owners. -/
theorem ownerStep_of_handlerReturns {s s' : State n} {j : Nat} {t : Tid n} {ctx : Connection}
    {e : Option (MessageBroker.Event n)}
    (h : HandlerReturns t s.broker.shared (s.connection j) s'.broker.shared e ctx)
    (hinv : ConnectionInv (s.connection j))
    (hconn : s'.connection = Function.update s.connection j ctx)
    (hregistry : s'.detachedSubscriptions = s.detachedSubscriptions)
    (hkeep : (s.connection j).handler = .publishing ∨ (s.connection j).handler = .pendingCount →
      ∀ x, e = some x → keepsOwners x = true) :
    OwnerStep s s' (e.map .broker) := by
  unfold ConnectionInv at hinv
  generalize hshared : s'.broker.shared = sh' at h
  cases h with
  | subscribed id name x hpc =>
      rw [hpc] at hinv
      refine .subscribed j t id name x ?_ (holders_update hconn) hregistry hshared rfl
      rw [holders, heldBy_eq (by simp [hpc]) (by simp [hpc])]
      exact hinv.1
  | replied r hpc hsame =>
      refine .same (holders_eq_of_update hconn ?_) hregistry (hshared ▸ hsame)
        (isTransfer_broker ?_)
      · rcases hpc with hpc | hpc | ⟨hpc, -⟩ <;> simp [heldBy, hpc]
      · rcases hpc with hpc | hpc | ⟨-, hquiet⟩
        · exact hkeep (Or.inl hpc)
        · exact hkeep (Or.inr hpc)
        · exact hquiet.keepsOwners
  | unsubscribed k code hpc hsame =>
      refine .same (holders_eq_of_update hconn ?_) hregistry (hshared ▸ hsame) ?_
      · simp [heldBy, hpc]
      · rintro x ⟨⟩
        rfl
  | freed k hpc hk hlive =>
      refine .freed j t k ?_ (holders_update hconn) hregistry hshared rfl
      rw [holders, heldBy_eq (by simp [hpc]) (by simp [hpc]), hk]

/-- What the return of a thread from the broker does to the owners. -/
theorem ownerStep_of_return {s : State n} {b : MessageBroker.State n} {client : Client}
    {e : Option (MessageBroker.Event n)} (hconn : ∀ i, ConnectionInv (s.connection i))
    (hcalls : CallInv s)
    (heffect : CallEffect (.client client.number) s.broker.shared
      (callOf (s.broker.pc (.client client.number))) b.shared (callOf .idle) e)
    (hcalling : callOf (s.broker.pc (.client client.number)) ≠ .outside) :
    OwnerStep s ({ s with broker := b }.returnTo client e) (e.map .broker) := by
  cases client with
  | handler j =>
      rw [show callOf _ = _ from hcalls (.handler j)] at heffect hcalling
      have hreturns := handlerReturn_returns heffect hcalling
      refine ownerStep_of_handlerReturns hreturns (hconn j) rfl rfl
        (fun hpc => (heffect.keepsOwners (Or.inr ?_)).2)
      rcases hpc with hpc | hpc
      · rw [handlerCall, hpc]
        exact ⟨fun h => (by cases h), fun k h => by cases h⟩
      · rw [handlerCall, hpc]
        cases (s.connection j).subscription with
        | none => exact ⟨fun h => (by cases h), fun k h => by cases h⟩
        | some k => exact ⟨fun h => (by cases h), fun k h => by cases h⟩
  | receiver j =>
      rw [show callOf _ = _ from hcalls (.receiver j)] at heffect
      have hkeep : receiverCall (s.connection j) ≠ .subscribe ∧
          ∀ k, receiverCall (s.connection j) ≠ .free k := by
        unfold receiverCall
        split
        · cases (s.connection j).subscription with
          | none => exact ⟨fun h => (by cases h), fun k h => by cases h⟩
          | some k => exact ⟨fun h => (by cases h), fun k h => by cases h⟩
        · exact ⟨fun h => (by cases h), fun k h => by cases h⟩
      obtain ⟨hsame, he⟩ := heffect.keepsOwners (Or.inr hkeep)
      exact .same (holders_eq_of_update rfl (heldBy_receiverReturn ..)) rfl hsame
        (isTransfer_broker he)
  | publisher j =>
      have hpool : callOf (s.broker.pc (.client (Client.publisher j).number)) = .pool :=
        (hcalls (.publisher j)).resolve_left hcalling
      rw [hpool] at heffect
      obtain ⟨hsame, he⟩ := heffect.keepsOwners
        (Or.inr ⟨fun h => (by cases h), fun k h => by cases h⟩)
      exact .same rfl rfl hsame (isTransfer_broker he)
  | main =>
      rw [show callOf _ = _ from hcalls .main] at heffect hcalling
      unfold mainCall at heffect hcalling
      split at heffect
      · rename_i node rest hmain hcons
        obtain ⟨hsame, he⟩ := heffect.keepsOwners
          (Or.inr ⟨fun h => (by cases h), fun k h => by cases h⟩)
        refine .same ?_ ?_ ?_ (isTransfer_broker he)
        · funext i
          exact congrArg heldBy (congrFun (returnTo_main_connection _ e) i)
        · simp only [State.returnTo, hmain]
        · rw [returnTo_broker]
          exact hsame
      · rename_i node rest hmain hcons
        generalize hshared : b.shared = sh' at heffect
        cases heffect with
        | leave hc => rcases hc with hc | hc | hc <;> cases hc
        | freed k hlive =>
            refine .freedNode _ node.1 node.2 ?_ ?_ ?_ rfl
            · funext i
              exact congrArg heldBy (congrFun (returnTo_main_connection _ _) i)
            · simp only [State.returnTo, hmain, hcons, List.tail_cons]
            · rw [returnTo_broker]
              exact hshared
      · rename_i hunsubscribing hfreeing
        refine absurd ?_ hcalling
        split
        · exact absurd ‹_› (hunsubscribing _ _ ‹_›)
        · exact absurd ‹_› (hfreeing _ _ ‹_›)
        · rfl

/-- Every step changes the owners in one of the listed ways. -/
theorem ownerStep_of_netStep {K : State n → Action n → Prop} {tr : List (Event n)}
    {s s' : State n} {a : Action n} {e : Option (Event n)}
    (hrun : (machine n capacity hcap apiKey).RunIf K tr s) (h : NetStep apiKey s a s' e)
    (hlive : ∀ i k, holders s i = some k → (s.broker.shared.subscription k).released = false) :
    OwnerStep s s' e := by
  have hconn := connectionInv_of_run hrun
  have hcalls := callInv_of_run hrun
  have hbroker := brokerRun_of_run (hrun.mono fun _ _ _ => trivial)
  -- A call of a thread that is outside the broker changes no subscription.
  have hcall : ∀ {client : Client} {call : MessageBroker.Move n} {b : MessageBroker.State n}
      {e : Option (MessageBroker.Event n)},
      callOf (s.broker.pc (.client client.number)) = .outside ∨
        callOf (s.broker.pc (.client client.number)) = .pool →
      MessageBroker.next s.broker (callAction client call) = some (b, e) →
      SameSubscriptions s.broker.shared b.shared ∧ ∀ x, e = some x → keepsOwners x = true := by
    intro client call b e hout hb
    refine (next_callEffect (a := callAction client call) hb).keepsOwners (Or.inr ?_)
    show callOf (s.broker.pc (.client client.number)) ≠ .subscribe ∧
      ∀ k, callOf (s.broker.pc (.client client.number)) ≠ .free k
    rcases hout with hout | hout
    · rw [hout]
      exact ⟨fun h => (by cases h), fun k h => by cases h⟩
    · rw [hout]
      exact ⟨fun h => (by cases h), fun k h => by cases h⟩
  cases h with
  | accept =>
      refine .same ?_ rfl (.refl _) ?_
      · refine holders_eq_of_update (j := s.nextConnection) rfl ?_
        rw [noConnection_of_run (hrun.mono fun _ _ _ => trivial) s.nextConnection (le_refl _)]
        rfl
      · rintro x ⟨⟩
        rfl
  | @handler i move ctx registry e h =>
      have howner := (clientHandler_step rfl h).owner (hconn i) (hlive i)
      cases howner with
      | same hheld hregistry he =>
          exact .same (holders_eq_of_update rfl hheld) hregistry (.refl _) he
      | attached id k pre post hfree hheld hold hnew =>
          refine .attached i id k pre post hfree ?_ hold hnew rfl rfl
          exact (holders_update rfl).trans (by rw [hheld])
      | linked id k hpc hk hheld hregistry =>
          refine .linked i id k hpc hk ?_ hregistry rfl rfl
          exact (holders_update rfl).trans (by rw [hheld])
  | @handlerCall i move ctx call b e h hb =>
      have hstep := clientHandler_step rfl h
      have hout : callOf (s.broker.pc (.client (Client.handler i).number)) = .outside := by
        rw [show callOf _ = _ from hcalls (.handler i)]
        exact handlerCall_eq_outside hstep.not_calling
      obtain ⟨hsame, he⟩ := hcall (Or.inl hout) hb
      exact .same (holders_eq_of_update rfl hstep.heldBy_call) rfl hsame (isTransfer_callEvent he)
  | @receiver i move ctx registry e h =>
      obtain ⟨hheld, hregistry, he⟩ := (subscriberReceiverThread_step h).owner.1 _ _ _ rfl
      exact .same (holders_eq_of_update rfl hheld) hregistry (.refl _) he
  | @receiverCall i move ctx call b e h hb =>
      have hstep := subscriberReceiverThread_step h
      have hout : callOf (s.broker.pc (.client (Client.receiver i).number)) = .outside := by
        rw [show callOf _ = _ from hcalls (.receiver i)]
        exact hstep.calls.1
      obtain ⟨hsame, he⟩ := hcall (Or.inl hout) hb
      exact .same (holders_eq_of_update rfl (hstep.owner.2 _ _ rfl)) rfl hsame
        (isTransfer_callEvent he)
  | stop => exact .same rfl rfl (.refl _) (by rintro x ⟨⟩)
  | freeStart => exact .same rfl rfl (.refl _) (by rintro x ⟨⟩)
  | freeEnd => exact .same rfl rfl (.refl _) (by rintro x ⟨⟩)
  | @freeUnsubscribe node rest b e hmain hcons hb =>
      have hout : callOf (s.broker.pc (.client Client.main.number)) = .outside := by
        rw [show callOf _ = _ from hcalls .main, hmain]
        rfl
      obtain ⟨hsame, he⟩ := hcall (Or.inl hout) hb
      exact .same rfl rfl hsame (isTransfer_broker he)
  | @freeFree node rest b e hmain hcons hb =>
      have hout : callOf (s.broker.pc (.client Client.main.number)) = .outside := by
        rw [show callOf _ = _ from hcalls .main, hmain]
        rfl
      obtain ⟨hsame, he⟩ := hcall (Or.inl hout) hb
      exact .same rfl rfl hsame (isTransfer_broker he)
  | @publish j channelName content b e hb =>
      obtain ⟨hsame, he⟩ := hcall (hcalls (.publisher j)) hb
      exact .same rfl rfl hsame (isTransfer_broker he)
  | @inside a b e hinside hb hstay =>
      have heffect := next_callEffect hb
      have hkeep : callOf (b.pc (actor a)) ≠ .outside ∨
          (callOf (s.broker.pc (actor a)) ≠ .subscribe ∧
            ∀ k, callOf (s.broker.pc (actor a)) ≠ .free k) := by
        cases hactor : actor a with
        | client c =>
            exact Or.inl fun h =>
              hstay c (actor_of_clientNumber.mp hactor) (callOf_eq_outside.mp h)
        | dispatcher d =>
            right
            rcases callOf_dispatcher hbroker d with h | h
            · rw [h]
              exact ⟨fun h => (by cases h), fun k h => by cases h⟩
            · rw [h]
              exact ⟨fun h => (by cases h), fun k h => by cases h⟩
      obtain ⟨hsame, he⟩ := heffect.keepsOwners hkeep
      exact .same rfl rfl hsame (isTransfer_broker he)
  | @back a client b e hinside hb hclient hidle =>
      have heffect := next_callEffect hb
      have hactor : actor a = .client client.number := actor_of_clientNumber.mpr hclient
      rw [hactor, hidle] at heffect
      have hcalling : callOf (s.broker.pc (.client client.number)) ≠ .outside :=
        fun h => not_idle_of_inside hinside hb hclient (callOf_eq_outside.mp h)
      exact ownerStep_of_return hconn hcalls heffect hcalling

/-! ### The invariant -/

/-- The subscription has been created and has not been freed. -/
def Live (sh : MessageBroker.Shared n) (k : Nat) : Prop :=
  k < sh.nextSubscription ∧ (sh.subscription k).released = false

/-- Every live subscription has one owner, and the nodes of the registry have the ids of their
subscriptions. -/
structure OwnershipInv (s : State n) : Prop where
  single : SingleOwner (holders s) (s.detachedSubscriptions.map Prod.snd) (Live s.broker.shared)
  ids : ∀ node ∈ s.detachedSubscriptions, node.1 = (s.broker.shared.subscription node.2).id
  link : ∀ i id k, (s.connection i).handler = .linkDetached id → holders s i = some k →
    id = (s.broker.shared.subscription k).id

/-- The live subscriptions stay when nothing happens to them. -/
theorem SameSubscriptions.live_iff {sh sh' : MessageBroker.Shared n}
    (h : SameSubscriptions sh sh') (k : Nat) : Live sh' k ↔ Live sh k := by
  rw [Live, Live, h.next, h.released]

/-- A new subscription is live. -/
theorem live_newSubscription (sh : MessageBroker.Shared n) (id : UInt64) (name : CString)
    (x k : Nat) :
    Live (sh.newSubscription id name x) k ↔ Live sh k ∨ k = sh.nextSubscription := by
  unfold Live MessageBroker.Shared.newSubscription MessageBroker.Shared.setSubscription
  by_cases hk : k = sh.nextSubscription
  · subst hk
    simp
  · simp only [Function.update_of_ne hk, hk, or_false]
    constructor
    · rintro ⟨hlt, hreleased⟩
      exact ⟨by omega, hreleased⟩
    · rintro ⟨hlt, hreleased⟩
      exact ⟨by omega, hreleased⟩

/-- A freed subscription is not live. -/
theorem live_free (sh : MessageBroker.Shared n) (k k' : Nat) :
    Live (sh.setSubscription k { sh.subscription k with released := true }) k' ↔
      Live sh k' ∧ k' ≠ k := by
  unfold Live MessageBroker.Shared.setSubscription
  by_cases hk : k' = k
  · subst hk
    simp
  · simp [hk]

/-- A step keeps the single owners. -/
theorem OwnerStep.single {s s' : State n} {e : Option (Event n)} (h : OwnerStep s s' e)
    (hinv : SingleOwner (holders s) (s.detachedSubscriptions.map Prod.snd) (Live s.broker.shared)) :
    SingleOwner (holders s') (s'.detachedSubscriptions.map Prod.snd) (Live s'.broker.shared) := by
  cases h with
  | same hheld hregistry hsame _ =>
      exact hinv.congr hheld (by rw [hregistry]) hsame.live_iff
  | subscribed i t id name x hfree hheld hregistry hshared _ =>
      rw [hheld, hregistry, hshared]
      refine hinv.create hfree ?_ (live_newSubscription _ id name x)
      exact fun hlive => absurd hlive.1 (lt_irrefl _)
  | attached i id k pre post hfree hheld hold hnew hbroker _ =>
      rw [hheld, hnew, hbroker]
      refine hinv.take hfree ?_
      rw [hold, List.map_append, List.map_append, List.map_cons]
      exact List.perm_middle
  | linked i id k _ hk hheld hregistry hbroker _ =>
      rw [hheld, hregistry, hbroker]
      exact hinv.put hk
  | freed i t k hk hheld hregistry hshared _ =>
      rw [hheld, hregistry, hshared]
      exact hinv.release hk (live_free _ k)
  | freedNode t id k hheld hregistry hshared _ =>
      rw [hregistry, List.map_cons] at hinv
      rw [hheld, hshared]
      exact hinv.drop (live_free _ k)

/-- A step keeps the ids of the subscriptions that exist. -/
theorem OwnerStep.id_eq {s s' : State n} {e : Option (Event n)} (h : OwnerStep s s' e) {k : Nat}
    (hk : k < s.broker.shared.nextSubscription) :
    (s'.broker.shared.subscription k).id = (s.broker.shared.subscription k).id := by
  cases h with
  | same _ _ hsame _ => exact hsame.id k
  | subscribed i t id name x _ _ _ hshared _ =>
      rw [hshared]
      show (Function.update s.broker.shared.subscription _ _ k).id = _
      rw [Function.update_of_ne (Nat.ne_of_lt hk)]
  | attached i id k' pre post _ _ _ _ hbroker _ => rw [hbroker]
  | linked i id k' _ _ _ _ hbroker _ => rw [hbroker]
  | freed i t k' _ _ _ hshared _ | freedNode t id k' _ _ hshared _ =>
      rw [hshared]
      show (Function.update s.broker.shared.subscription _ _ k).id = _
      by_cases hkk : k = k'
      · subst hkk
        rw [Function.update_self]
      · rw [Function.update_of_ne hkk]

/-- A handler comes to the link of `_add_detached` with the id of its subscription. -/
theorem linkDetached_of_handlerStep {i : Nat} {running : Bool} {sh : MessageBroker.Shared n}
    {registry registry' : List Detached} {ctx ctx' : Connection} {move : Move}
    {e : Option (Event n)} {id : UInt64}
    (h : HandlerStep apiKey i running sh registry ctx move (.step ctx' registry' e))
    (hpc : ctx'.handler = .linkDetached id) :
    ctx.handler = .addDetached ∧ ctx'.subscription = ctx.subscription ∧ getId sh ctx = some id := by
  cases h with
  | command => exact absurd hpc (handleCommand_ne rfl)
  | @reply r last _ => cases last <;> cases hpc
  | @createReceiver attach _ => cases attach <;> cases hpc
  | @createFailed attach _ => cases attach <;> cases hpc
  | getId _ =>
      rcases withId_cases sh ctx fun id => .reply (.okNumber id.toNat) false with ⟨_, _, h⟩ | ⟨_, h⟩
      · rw [h] at hpc
        cases hpc
      · rw [h] at hpc
        cases hpc
  | addDetached hadd =>
      rcases withId_cases sh ctx .linkDetached with ⟨id', hid, h⟩ | ⟨_, h⟩
      · rw [h] at hpc
        cases hpc
        exact ⟨hadd, rfl, hid⟩
      · rw [h] at hpc
        cases hpc
  | addFailed _ =>
      rcases withId_cases sh ctx fun _ => .reply (.err .failedToDetach) false with
        ⟨_, _, h⟩ | ⟨_, h⟩
      · rw [h] at hpc
        cases hpc
      · rw [h] at hpc
        cases hpc
  | leave _ =>
      simp only at hpc
      split_ifs at hpc
  | _ => cases hpc

/-- A handler that is back from the broker is not in the middle of a `DETACH`. -/
theorem handlerReturn_linkDetached {ctx : Connection} {e : Option (MessageBroker.Event n)}
    {id : UInt64} (h : (handlerReturn ctx e).handler = .linkDetached id) :
    handlerReturn ctx e = ctx := by
  unfold handlerReturn at h ⊢
  split at h <;> first | cases h | rfl

/-- A connection is at the link of `_add_detached` because it was there before, or because it has
read the id of its subscription. -/
theorem linkDetached_of_netStep {s s' : State n} {a : Action n} {e : Option (Event n)}
    (h : NetStep apiKey s a s' e) {i : Nat} {id : UInt64}
    (hpc : (s'.connection i).handler = .linkDetached id) :
    (s'.connection i).subscription = (s.connection i).subscription ∧
    ((s.connection i).handler = .linkDetached id ∨
      ((s.connection i).handler = .addDetached ∧
        getId s.broker.shared (s.connection i) = some id)) := by
  -- a write to a connection that is the only one to change
  have hupdate : ∀ {j : Nat} {ctx : Connection},
      s'.connection = Function.update s.connection j ctx →
      (ctx.handler = .linkDetached id → j = i → ctx.subscription = (s.connection j).subscription ∧
        ((s.connection j).handler = .linkDetached id ∨
          ((s.connection j).handler = .addDetached ∧
            getId s.broker.shared (s.connection j) = some id))) →
      (s'.connection i).subscription = (s.connection i).subscription ∧
      ((s.connection i).handler = .linkDetached id ∨
        ((s.connection i).handler = .addDetached ∧
          getId s.broker.shared (s.connection i) = some id)) := by
    intro j ctx hconn hctx
    rw [hconn] at hpc ⊢
    by_cases hij : i = j
    · subst hij
      rw [Function.update_self] at hpc ⊢
      exact hctx hpc rfl
    · rw [Function.update_of_ne hij] at hpc ⊢
      exact ⟨rfl, Or.inl hpc⟩
  cases h with
  | accept => exact hupdate rfl fun h _ => by cases h
  | handler h =>
      refine hupdate rfl fun hctx _ => ?_
      obtain ⟨hadd, hsub, hid⟩ := linkDetached_of_handlerStep (clientHandler_step rfl h) hctx
      exact ⟨hsub, Or.inr ⟨hadd, hid⟩⟩
  | handlerCall h =>
      refine hupdate rfl fun hctx _ => ?_
      cases clientHandler_step rfl h <;> cases hctx
  | receiver h =>
      refine hupdate rfl fun hctx _ => ?_
      cases subscriberReceiverThread_step h <;> exact ⟨rfl, Or.inl hctx⟩
  | receiverCall h =>
      refine hupdate rfl fun hctx _ => ?_
      cases subscriberReceiverThread_step h
      exact ⟨rfl, Or.inl hctx⟩
  | @back a client b e _ _ _ _ =>
      cases client with
      | handler j =>
          refine hupdate rfl fun hctx _ => ?_
          have hsame := handlerReturn_linkDetached hctx
          rw [hsame] at hctx ⊢
          exact ⟨rfl, Or.inl hctx⟩
      | receiver j =>
          refine hupdate rfl fun hctx _ => ?_
          obtain ⟨hhandler, hsub⟩ := receiverReturn_fields (s.connection j) e
          exact ⟨hsub, Or.inl (hhandler.symm.trans hctx)⟩
      | publisher j => exact ⟨rfl, Or.inl hpc⟩
      | main =>
          rw [returnTo_main_connection] at hpc ⊢
          exact ⟨rfl, Or.inl hpc⟩
  | _ => exact ⟨rfl, Or.inl hpc⟩

/-- `OwnershipInv` holds in every state of a run. -/
theorem ownershipInv_of_run {K : State n → Action n → Prop} {tr : List (Event n)} {s : State n}
    (h : (machine n capacity hcap apiKey).RunIf K tr s) : OwnershipInv s := by
  refine h.induction (I := fun _ s => OwnershipInv s) ?_ ?_
  · refine ⟨⟨?_, ?_, ?_, ?_, List.nodup_nil, ?_⟩, ?_, ?_⟩
    · intro i k hk
      cases hk
    · intro k hk
      cases hk
    · intro i j k hk
      cases hk
    · intro i k hk
      cases hk
    · intro k hlive
      exact absurd hlive.1 (Nat.not_lt_zero k)
    · intro node hnode
      cases hnode
    · intro i id k hpc
      cases hpc
  · intro tr s a s' e hrun hinv hK hnext
    have hstep := next_netStep hnext
    have howner := ownerStep_of_netStep hrun hstep fun i k hk =>
      (hinv.single.held_live i k hk).2
    have hids : ∀ node ∈ s.detachedSubscriptions,
        node.1 = (s'.broker.shared.subscription node.2).id := by
      intro node hnode
      rw [howner.id_eq (hinv.single.pool_live _ (List.mem_map_of_mem hnode)).1]
      exact hinv.ids node hnode
    refine ⟨howner.single hinv.single, ?_, ?_⟩
    · intro node hnode
      cases howner with
      | same _ hregistry _ _ | subscribed _ _ _ _ _ _ _ hregistry _ _
      | freed _ _ _ _ _ hregistry _ _ => exact hids node (hregistry ▸ hnode)
      | attached i id k pre post _ _ hold hnew _ _ =>
          refine hids node ?_
          rw [hnew] at hnode
          rw [hold]
          rcases List.mem_append.mp hnode with hnode | hnode
          · exact List.mem_append_left _ hnode
          · exact List.mem_append_right _ (List.mem_cons_of_mem _ hnode)
      | linked i id k hpc hk _ hregistry hbroker _ =>
          rw [hregistry] at hnode
          rcases List.mem_cons.mp hnode with rfl | hnode
          · rw [hbroker]
            exact hinv.link i id k hpc hk
          · exact hids node hnode
      | freedNode t id k _ hregistry _ _ =>
          exact hids node (hregistry ▸ List.mem_cons_of_mem _ hnode)
    · intro i id k hpc hk
      obtain ⟨hsub, hcases⟩ := linkDetached_of_netStep hstep hpc
      have hk' : (s.connection i).subscription = some k := by
        rw [← hsub, ← heldBy_eq (by simp [hpc]) (by simp [hpc])]
        exact hk
      rcases hcases with hold | ⟨hadd, hid⟩
      · have hheld : holders s i = some k := by
          rw [holders, heldBy_eq (by simp [hold]) (by simp [hold]), hk']
        rw [howner.id_eq (hinv.single.held_live i k hheld).1]
        exact hinv.link i id k hold hheld
      · have hheld : holders s i = some k := by
          rw [holders, heldBy_eq (by simp [hadd]) (by simp [hadd]), hk']
        have hlive := hinv.single.held_live i k hheld
        rw [howner.id_eq hlive.1]
        rw [getId_of_live hk' hlive.2] at hid
        exact (Option.some.inj hid).symm

end

end

end Miez.Proofs.NetworkServer
