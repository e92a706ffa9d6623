import Miez.Proofs.MessageBroker.Steps
import Miez.NetworkServer

/-!
# `Miez.Proofs.NetworkServer.Steps`: what one step of the server can do

`NetStep` lists the steps of the server: a step of a handler, of a receiver or of the thread that
frees the server outside the broker, a call of the broker by one of them, or a step inside the
broker with or without a return. `next_netStep` says that there are no others. `brokerRun_of_run`
is the projection: a run of the server has a run of its broker inside. `NetStep.frame` says what
a step of one connection leaves alone in the others.
-/

set_option autoImplicit false

namespace Miez.Proofs.NetworkServer

open Miez.Lib
open Miez.NetworkServer
open Miez.ThreadPool (Tid)
open Miez.Proofs

section
variable {n : Nat}

/-! ### The threads as clients of the broker -/

/-- The number of a thread tells the thread. -/
@[simp] theorem clientOf_number (client : Client) : clientOf client.number = client := by
  cases client with
  | main => rfl
  | handler i =>
      have h₁ : 3 * i + 1 ≠ 0 := by omega
      have h₂ : (3 * i + 1) % 3 = 1 := by omega
      have h₃ : (3 * i + 1) / 3 = i := by omega
      simp only [clientOf, Client.number, h₂, h₃, if_neg h₁, if_true]
  | receiver i =>
      have h₁ : 3 * i + 2 ≠ 0 := by omega
      have h₂ : (3 * i + 2) % 3 = 2 := by omega
      have h₃ : (3 * i + 2) / 3 = i := by omega
      simp only [clientOf, Client.number, h₂, h₃, if_neg h₁, if_true]
      rfl
  | publisher j =>
      have h₁ : 3 * j + 3 ≠ 0 := by omega
      have h₂ : (3 * j + 3) % 3 = 0 := by omega
      have h₃ : (3 * j + 3) / 3 - 1 = j := by omega
      simp only [clientOf, Client.number, h₂, h₃, if_neg h₁]
      rfl

/-- Every client of the broker is one of the threads. -/
@[simp] theorem number_clientOf (c : Nat) : (clientOf c).number = c := by
  unfold clientOf
  split_ifs with h₁ h₂ h₃
  · exact h₁.symm
  · show 3 * (c / 3) + 1 = c
    omega
  · show 3 * (c / 3) + 2 = c
    omega
  · show 3 * (c / 3 - 1) + 3 = c
    omega

/-- Two threads with one number are one thread. -/
theorem number_injective : Function.Injective Client.number :=
  Function.LeftInverse.injective clientOf_number

/-! ### Calls of the broker -/

/-- The move is a call of a function of the broker. -/
def isCall : MessageBroker.Move n → Bool
  | .callPublish _ _ => true
  | .callSubscribe _ => true
  | .callUnsubscribe _ => true
  | .callFree _ => true
  | .callReceive _ _ => true
  | .callPendingCount _ => true
  | _ => false

/-- A thread inside the get-or-create of a channel makes no call. -/
theorem getChannel_call {t : Tid n} {name : CString} {freeFirst : Bool}
    {sh : MessageBroker.Shared n} {g : MessageBroker.GetChannelPc} {move : MessageBroker.Move n}
    (h : isCall move = true) : MessageBroker.getChannel t name freeFirst sh g move = none := by
  cases move <;> first | (cases h; done) | (cases g <;> rfl)

/-- A thread inside a function of the broker makes no call. -/
theorem idle_of_call {t : Tid n} {sh sh' : MessageBroker.Shared n} {pc pc' : MessageBroker.Pc}
    {move : MessageBroker.Move n} {e : Option (MessageBroker.Event n)} (hcall : isCall move = true)
    (h : MessageBroker.threadFunction t sh pc move = some (.step sh' pc' e)) : pc = .idle := by
  cases pc with
  | idle => rfl
  | publish arg => cases move <;> first | (cases hcall; done) | cases h
  | inPool => cases move <;> cases h
  | publisherTask arg pc =>
      cases pc with
      | getChannel g =>
          simp only [MessageBroker.threadFunction, MessageBroker.publisherTask,
            getChannel_call hcall, Option.map_none] at h
          cases h
      | signal ch i x =>
          cases move <;> first
            | (cases hcall; done)
            | simp [MessageBroker.threadFunction, MessageBroker.publisherTask,
                MessageBroker.Shared.signalInbox] at h
      | _ => cases move <;> first | (cases hcall; done) | cases h
  | subscribe name id pc =>
      cases pc with
      | getChannel g =>
          simp only [MessageBroker.threadFunction, MessageBroker.messageBrokerSubscribe,
            getChannel_call hcall, Option.map_none] at h
          cases h
      | _ => cases move <;> first | (cases hcall; done) | cases h
  | unsubscribe k thenFree pc => cases pc <;> cases move <;> first | (cases hcall; done) | cases h
  | free k => cases move <;> first | (cases hcall; done) | cases h
  | receive k tryReceive pc => cases pc <;> cases move <;> first | (cases hcall; done) | cases h
  | pendingCount k pc => cases move <;> first | (cases hcall; done) | cases h

/-- A call that shows an event comes from a thread outside the broker. -/
theorem next_call {b b' : MessageBroker.State n} {client : Client} {move : MessageBroker.Move n}
    {e : Option (MessageBroker.Event n)} (hcall : isCall move = true)
    (hidle : b.pc (.client client.number) = .idle ∨ e ≠ none)
    (h : MessageBroker.next b (.thread (.client client.number) move) = some (b', e)) :
    ∃ sh pc, MessageBroker.call client.number b.shared move = some (.step sh pc e) ∧
      b' = { b with shared := sh, pc := Function.update b.pc (.client client.number) pc } := by
  simp only [MessageBroker.next, Option.ite_none_left_eq_some, Option.map_eq_some_iff] at h
  obtain ⟨-, o, ho, hs⟩ := h
  have hpc : b.pc (.client client.number) = .idle := by
    rcases hidle with hidle | he
    · exact hidle
    · cases o with
      | step sh pc e' => exact idle_of_call hcall ho
      | fault => exact absurd (Prod.mk.inj hs).2.symm he
  rw [hpc] at ho
  cases o with
  | step sh pc e' =>
      obtain ⟨rfl, rfl⟩ := Prod.mk.inj hs
      exact ⟨sh, pc, ho, rfl⟩
  | fault =>
      -- A call does not follow a pointer that may be gone.
      exfalso
      have hne : MessageBroker.call client.number b.shared move ≠ some .fault := by
        cases move <;> simp [MessageBroker.call] <;> try split_ifs <;> simp
      exact hne ho

/-! ### The steps -/

/-- What the broker shows in an event of the server. -/
def brokerEvent : Event n → Option (MessageBroker.Event n)
  | .broker e => some e
  | .publish _ _ e => some e
  | _ => none

/-- The call of the broker by a thread, as an action of the broker. -/
abbrev callAction (client : Client) (move : MessageBroker.Move n) : MessageBroker.Action n :=
  .thread (.client client.number) move

/-- The steps of the server. -/
inductive NetStep (apiKey : Option CString) (s : State n) :
    Action n → State n → Option (Event n) → Prop where
  | accept (hrunning : s.running = true) :
      NetStep apiKey s .accept
        { s.setConnection s.nextConnection newConnection with
          nextConnection := s.nextConnection + 1 } (some (.accepted s.nextConnection))
  | handler {i : Nat} {move : Move} {ctx : Connection} {registry : List Detached}
      {e : Option (Event n)}
      (h : clientHandler apiKey i s.running s.broker.shared s.detachedSubscriptions
        (s.connection i) (s.connection i).handler move = some (.step ctx registry e)) :
      NetStep apiKey s (.handler i move)
        { s.setConnection i ctx with detachedSubscriptions := registry } e
  | handlerCall {i : Nat} {move : Move} {ctx : Connection} {call : MessageBroker.Move n}
      {b : MessageBroker.State n} {e : Option (MessageBroker.Event n)}
      (h : clientHandler apiKey i s.running s.broker.shared s.detachedSubscriptions
        (s.connection i) (s.connection i).handler move = some (.call ctx call))
      (hb : MessageBroker.next s.broker (callAction (.handler i) call) = some (b, e)) :
      NetStep apiKey s (.handler i move)
        ({ s with broker := b }.setConnection i ctx) (e.map (callEvent i (s.connection i)))
  | receiver {i : Nat} {move : Move} {ctx : Connection} {registry : List Detached}
      {e : Option (Event n)}
      (h : subscriberReceiverThread i s.detachedSubscriptions (s.connection i)
        (s.connection i).receiver move = some (.step ctx registry e)) :
      NetStep apiKey s (.receiver i move)
        { s.setConnection i ctx with detachedSubscriptions := registry } e
  | receiverCall {i : Nat} {move : Move} {ctx : Connection} {call : MessageBroker.Move n}
      {b : MessageBroker.State n} {e : Option (MessageBroker.Event n)}
      (h : subscriberReceiverThread (n := n) i s.detachedSubscriptions (s.connection i)
        (s.connection i).receiver move = some (.call ctx call))
      (hb : MessageBroker.next s.broker (callAction (.receiver i) call) = some (b, e)) :
      NetStep apiKey s (.receiver i move)
        ({ s with broker := b }.setConnection i ctx) (e.map (callEvent i (s.connection i)))
  | stop : NetStep apiKey s .stop { s with running := false } none
  | freeStart (hmain : s.main = .serving)
      (hclosed : ∀ i < s.nextConnection, (s.connection i).handler = .closed) :
      NetStep apiKey s .free { s with running := false, main := .nextNode } none
  | freeEnd (hmain : s.main = .nextNode) (hnil : s.detachedSubscriptions = []) :
      NetStep apiKey s .free { s with main := .freed } none
  | freeUnsubscribe {node : Detached} {rest : List Detached} {b : MessageBroker.State n}
      {e : Option (MessageBroker.Event n)} (hmain : s.main = .nextNode)
      (hcons : s.detachedSubscriptions = node :: rest)
      (hb : MessageBroker.next s.broker (callAction .main (.callUnsubscribe node.2)) = some (b, e)) :
      NetStep apiKey s .free { s with broker := b, main := .unsubscribing } (e.map .broker)
  | freeFree {node : Detached} {rest : List Detached} {b : MessageBroker.State n}
      {e : Option (MessageBroker.Event n)} (hmain : s.main = .callFree)
      (hcons : s.detachedSubscriptions = node :: rest)
      (hb : MessageBroker.next s.broker (callAction .main (.callFree node.2)) = some (b, e)) :
      NetStep apiKey s .free { s with broker := b, main := .freeing } (e.map .broker)
  | publish {j : Nat} {channelName content : CString} {b : MessageBroker.State n}
      {e : Option (MessageBroker.Event n)}
      (hb : MessageBroker.next s.broker
        (callAction (.publisher j) (.callPublish channelName content)) = some (b, e)) :
      NetStep apiKey s (.publish j channelName content) { s with broker := b } (e.map .broker)
  | inside {a : MessageBroker.Action n} {b : MessageBroker.State n}
      {e : Option (MessageBroker.Event n)} (hinside : isInside s.broker a = true)
      (hb : MessageBroker.next s.broker a = some (b, e))
      (hstay : ∀ c, clientNumber a = some c → b.pc (.client c) ≠ .idle) :
      NetStep apiKey s (.broker a) { s with broker := b } (e.map .broker)
  | back {a : MessageBroker.Action n} {client : Client} {b : MessageBroker.State n}
      {e : Option (MessageBroker.Event n)} (hinside : isInside s.broker a = true)
      (hb : MessageBroker.next s.broker a = some (b, e))
      (hclient : clientNumber a = some client.number)
      (hidle : b.pc (.client client.number) = .idle) :
      NetStep apiKey s (.broker a) ({ s with broker := b }.returnTo client e) (e.map .broker)

/-- A call of the broker. -/
theorem call_eq_some {s s' : State n} {client : Client} {move : MessageBroker.Move n}
    {e : Option (MessageBroker.Event n)} (h : s.call client move = some (s', e)) :
    ∃ b, MessageBroker.next s.broker (callAction client move) = some (b, e) ∧
      s' = { s with broker := b } := by
  simp only [State.call, Option.map_eq_some_iff, Prod.mk.injEq] at h
  obtain ⟨⟨b, e'⟩, hb, rfl, rfl⟩ := h
  exact ⟨b, hb, rfl⟩

/-- A step of the server is one of the listed steps. -/
theorem next_netStep {apiKey : Option CString} {s s' : State n} {a : Action n}
    {e : Option (Event n)} (h : next apiKey s a = some (s', e)) : NetStep apiKey s a s' e := by
  cases a with
  | accept =>
      simp only [next, Option.ite_none_right_eq_some, Option.some.injEq, Prod.mk.injEq] at h
      obtain ⟨hrunning, rfl, rfl⟩ := h
      exact .accept hrunning
  | handler i move =>
      simp only [next, Option.bind_eq_some_iff] at h
      obtain ⟨o, ho, hs⟩ := h
      cases o with
      | step ctx registry e' =>
          simp only [State.apply, Option.some.injEq, Prod.mk.injEq] at hs
          obtain ⟨rfl, rfl⟩ := hs
          exact .handler ho
      | call ctx call =>
          simp only [State.apply, Option.map_eq_some_iff, Prod.mk.injEq] at hs
          obtain ⟨⟨s₁, e₁⟩, hcall, rfl, rfl⟩ := hs
          obtain ⟨b, hb, rfl⟩ := call_eq_some hcall
          exact .handlerCall ho hb
  | receiver i move =>
      simp only [next, Option.bind_eq_some_iff] at h
      obtain ⟨o, ho, hs⟩ := h
      cases o with
      | step ctx registry e' =>
          simp only [State.apply, Option.some.injEq, Prod.mk.injEq] at hs
          obtain ⟨rfl, rfl⟩ := hs
          exact .receiver ho
      | call ctx call =>
          simp only [State.apply, Option.map_eq_some_iff, Prod.mk.injEq] at hs
          obtain ⟨⟨s₁, e₁⟩, hcall, rfl, rfl⟩ := hs
          obtain ⟨b, hb, rfl⟩ := call_eq_some hcall
          exact .receiverCall ho hb
  | stop =>
      simp only [next, Option.some.injEq, Prod.mk.injEq] at h
      obtain ⟨rfl, rfl⟩ := h
      exact .stop
  | free =>
      simp only [next, State.networkServerFree] at h
      split at h
      · rename_i hmain
        simp only [Option.ite_none_right_eq_some, Option.some.injEq, Prod.mk.injEq] at h
        obtain ⟨hclosed, rfl, rfl⟩ := h
        exact .freeStart hmain hclosed
      · rename_i hmain hnil
        simp only [Option.some.injEq, Prod.mk.injEq] at h
        obtain ⟨rfl, rfl⟩ := h
        exact .freeEnd hmain hnil
      · rename_i node rest hmain hcons
        simp only [Option.map_eq_some_iff, Prod.mk.injEq] at h
        obtain ⟨⟨s₁, e₁⟩, hcall, rfl, rfl⟩ := h
        obtain ⟨b, hb, rfl⟩ := call_eq_some hcall
        exact .freeUnsubscribe hmain hcons hb
      · rename_i node rest hmain hcons
        simp only [Option.map_eq_some_iff, Prod.mk.injEq] at h
        obtain ⟨⟨s₁, e₁⟩, hcall, rfl, rfl⟩ := h
        obtain ⟨b, hb, rfl⟩ := call_eq_some hcall
        exact .freeFree hmain hcons hb
      · cases h
  | publish j channelName content =>
      simp only [next, Option.map_eq_some_iff, Prod.mk.injEq] at h
      obtain ⟨⟨s₁, e₁⟩, hcall, rfl, rfl⟩ := h
      obtain ⟨b, hb, rfl⟩ := call_eq_some hcall
      exact .publish hb
  | broker a =>
      simp only [next, State.inside, Option.ite_none_right_eq_some, Option.map_eq_some_iff,
        Prod.mk.injEq] at h
      obtain ⟨hinside, ⟨b, e₁⟩, hb, hs, rfl⟩ := h
      cases hc : clientNumber a with
      | none =>
          rw [hc] at hs
          obtain rfl := hs
          exact .inside hinside hb fun c hc' => by rw [hc] at hc'; cases hc'
      | some c =>
          rw [hc] at hs
          simp only [] at hs
          by_cases hidle : b.pc (.client c) = .idle
          · rw [if_pos hidle] at hs
            obtain rfl := hs
            have hnumber : clientNumber a = some (clientOf c).number := by rw [hc, number_clientOf]
            exact .back hinside hb hnumber (by rwa [number_clientOf])
          · rw [if_neg hidle] at hs
            obtain rfl := hs
            refine .inside hinside hb fun c' hc' => ?_
            rw [hc] at hc'
            obtain rfl := Option.some.inj hc'
            exact hidle

/-! ### The steps of a handler -/

/-- The steps of a handler outside the broker and its calls of the broker. -/
inductive HandlerStep (apiKey : Option CString) (i : Nat) (running : Bool)
    (sh : MessageBroker.Shared n) (registry : List Detached) (ctx : Connection) :
    Move → Outcome n → Prop where
  | start (hpc : ctx.handler = .testRunning) (hrunning : running = true) :
      HandlerStep apiKey i running sh registry ctx .go
        (.step { ctx with handler := .read (.line []) } registry none)
  | stopped (hpc : ctx.handler = .testRunning) (hrunning : running = false) :
      HandlerStep apiKey i running sh registry ctx .go
        (.step { ctx with handler := .leave } registry none)
  | readMore {pc pc' : ReadPc} {input : Input} (hpc : ctx.handler = .read pc)
      (hread : readStep pc input = some (.more pc')) :
      HandlerStep apiKey i running sh registry ctx (.read input)
        (.step { ctx with handler := .read pc' } registry none)
  | command {pc : ReadPc} {input : Input} {buffer : List UInt8} (hpc : ctx.handler = .read pc)
      (hread : readStep pc input = some (.command buffer)) :
      HandlerStep apiKey i running sh registry ctx (.read input)
        (.step (handleCommand apiKey ctx buffer) registry (some (.command i buffer)))
  | readLeave {pc : ReadPc} {input : Input} (hpc : ctx.handler = .read pc)
      (hread : readStep pc input = some .leave) :
      HandlerStep apiKey i running sh registry ctx (.read input)
        (.step { ctx with handler := .leave } registry none)
  | readPublish {pc : ReadPc} {input : Input} {channelName : CString} {content : List UInt8}
      (hpc : ctx.handler = .read pc)
      (hread : readStep pc input = some (.publish channelName content)) :
      HandlerStep apiKey i running sh registry ctx (.read input)
        (.step { ctx with handler := .callPublish channelName content } registry none)
  | readFailed {pc : ReadPc} {input : Input} {e : Error} (hpc : ctx.handler = .read pc)
      (hread : readStep pc input = some (.failed e)) :
      HandlerStep apiKey i running sh registry ctx (.read input)
        (.step { ctx with handler := .reply (.err e) false } registry none)
  | reply {r : Reply} {last : Bool} (hpc : ctx.handler = .reply r last) :
      HandlerStep apiKey i running sh registry ctx .go
        (.step { ctx with handler := if last then .leave else .testRunning } registry
          (some (.reply i r)))
  | callSubscribe {channelName : CString} (hpc : ctx.handler = .callSubscribe channelName) :
      HandlerStep apiKey i running sh registry ctx .go
        (.call { ctx with handler := .subscribing } (.callSubscribe channelName))
  | activate {attach : Bool} (hpc : ctx.handler = .activate attach) :
      HandlerStep apiKey i running sh registry ctx .go
        (.step { ctx with detached := false, active := true, handler := .createReceiver attach }
          registry none)
  | createReceiver {attach : Bool} (hpc : ctx.handler = .createReceiver attach) :
      HandlerStep apiKey i running sh registry ctx .go
        (.step { ctx with
          receiver := .testActive
          handler := if attach then .callPending else .getId } registry (some (.receiverCreated i)))
  | createFailed {attach : Bool} (hpc : ctx.handler = .createReceiver attach) :
      HandlerStep apiKey i running sh registry ctx .fail
        (.step { ctx with handler := if attach then .callPending else .getId } registry none)
  | getId (hpc : ctx.handler = .getId) :
      HandlerStep apiKey i running sh registry ctx .go
        (.step { ctx with handler := withId sh ctx fun id => .reply (.okNumber id.toNat) false }
          registry none)
  | notFound {id : UInt64} (hpc : ctx.handler = .findDetached id)
      (hfind : findAndRemoveDetached registry id = none) :
      HandlerStep apiKey i running sh registry ctx .go
        (.step { ctx with handler := .reply (.err .subscriptionNotFound) false } registry none)
  | attach {id : UInt64} {k : Nat} {rest : List Detached} (hpc : ctx.handler = .findDetached id)
      (hfind : findAndRemoveDetached registry id = some (k, rest)) :
      HandlerStep apiKey i running sh registry ctx .go
        (.step { ctx with subscription := some k, handler := .activate true } rest
          (some (.attached i id k)))
  | callPending {k : Nat} (hpc : ctx.handler = .callPending) (hk : ctx.subscription = some k) :
      HandlerStep apiKey i running sh registry ctx .go
        (.call { ctx with handler := .pendingCount } (.callPendingCount k))
  | deactivate (hpc : ctx.handler = .deactivate) :
      HandlerStep apiKey i running sh registry ctx .go
        (.step { ctx with active := false, handler := .joinDetach } registry none)
  | joinDetach (hpc : ctx.handler = .joinDetach) (hexit : ctx.receiver = .exited) :
      HandlerStep apiKey i running sh registry ctx .go
        (.step { ctx with receiver := .absent, handler := .addDetached } registry
          (some (.receiverJoined i)))
  | addDetached (hpc : ctx.handler = .addDetached) :
      HandlerStep apiKey i running sh registry ctx .go
        (.step { ctx with handler := withId sh ctx .linkDetached } registry none)
  | addFailed (hpc : ctx.handler = .addDetached) :
      HandlerStep apiKey i running sh registry ctx .fail
        (.step { ctx with handler := withId sh ctx fun _ => .reply (.err .failedToDetach) false }
          registry none)
  | link {id : UInt64} {k : Nat} (hpc : ctx.handler = .linkDetached id)
      (hk : ctx.subscription = some k) :
      HandlerStep apiKey i running sh registry ctx .go
        (.step { ctx with handler := .detachGetId } ((id, k) :: registry) (some (.linked i id k)))
  | detach {id : UInt64} (hpc : ctx.handler = .detachGetId)
      (hid : Miez.NetworkServer.getId sh ctx = some id) :
      HandlerStep apiKey i running sh registry ctx .go
        (.step { ctx with
          subscription := none
          detached := true
          handler := .reply (.okNumber id.toNat) false } registry none)
  | detachFault (hpc : ctx.handler = .detachGetId)
      (hid : Miez.NetworkServer.getId sh ctx = none) :
      HandlerStep apiKey i running sh registry ctx .go
        (.step { ctx with handler := .faulted } registry none)
  | callPublish {channelName : CString} {content : List UInt8}
      (hpc : ctx.handler = .callPublish channelName content) :
      HandlerStep apiKey i running sh registry ctx .go
        (.call { ctx with handler := .publishing } (.callPublish channelName (.ofBuffer content)))
  | publishFailed {channelName : CString} {content : List UInt8}
      (hpc : ctx.handler = .callPublish channelName content) :
      HandlerStep apiKey i running sh registry ctx .fail
        (.step { ctx with handler := .reply (.err .failedToPublish) false } registry none)
  | leave (hpc : ctx.handler = .leave) :
      HandlerStep apiKey i running sh registry ctx .go
        (.step { ctx with
          active := false
          handler := if ctx.subscription.isSome ∧ ctx.detached = false then .joinLeave else .closed }
          registry none)
  | joinLeave (hpc : ctx.handler = .joinLeave) (hexit : ctx.receiver = .exited) :
      HandlerStep apiKey i running sh registry ctx .go
        (.step { ctx with receiver := .absent, handler := .callUnsubscribe } registry
          (some (.receiverJoined i)))
  | callUnsubscribe {k : Nat} (hpc : ctx.handler = .callUnsubscribe)
      (hk : ctx.subscription = some k) :
      HandlerStep apiKey i running sh registry ctx .go
        (.call { ctx with handler := .unsubscribing } (.callUnsubscribe k))
  | callFree {k : Nat} (hpc : ctx.handler = .callFree) (hk : ctx.subscription = some k) :
      HandlerStep apiKey i running sh registry ctx .go
        (.call { ctx with handler := .freeing } (.callFree k))

/-- The program points at which a handler starts to work on a command. -/
def isStart : HandlerPc → Bool
  | .read _ | .reply _ _ | .callSubscribe _ | .findDetached _ | .deactivate => true
  | _ => false

/-- A command starts at its first step. -/
theorem isStart_handleCommand (apiKey : Option CString) (ctx : Connection) (buffer : List UInt8) :
    isStart (handleCommand apiKey ctx buffer).handler = true := by
  unfold handleCommand
  split
  · rfl
  · split_ifs <;> rfl
  · unfold handlePublish
    split_ifs <;> rfl
  · split_ifs <;> rfl
  · split_ifs <;> rfl
  · rfl
  · rfl

/-- A command does not start in the middle of something. -/
theorem handleCommand_ne {apiKey : Option CString} {ctx : Connection} {buffer : List UInt8}
    {pc : HandlerPc} (hpc : isStart pc = false) :
    (handleCommand apiKey ctx buffer).handler ≠ pc := by
  intro h
  have hstart := isStart_handleCommand apiKey ctx buffer
  rw [h, hpc] at hstart
  cases hstart

/-- The choice of a command changes the handler and `_authenticated` only. -/
theorem handleCommand_fields (apiKey : Option CString) (ctx : Connection) (buffer : List UInt8) :
    (handleCommand apiKey ctx buffer).subscription = ctx.subscription ∧
    (handleCommand apiKey ctx buffer).active = ctx.active ∧
    (handleCommand apiKey ctx buffer).detached = ctx.detached ∧
    (handleCommand apiKey ctx buffer).receiver = ctx.receiver := by
  unfold handleCommand
  split <;> exact ⟨rfl, rfl, rfl, rfl⟩

/-- A handler takes one of the listed steps. -/
theorem clientHandler_step {apiKey : Option CString} {i : Nat} {running : Bool}
    {sh : MessageBroker.Shared n} {registry : List Detached} {ctx : Connection} {pc : HandlerPc}
    {move : Move} {o : Outcome n} (hpc : ctx.handler = pc)
    (h : clientHandler apiKey i running sh registry ctx pc move = some o) :
    HandlerStep apiKey i running sh registry ctx move o := by
  cases pc with
  | absent => cases move <;> cases h
  | testRunning =>
      cases move with
      | go =>
          obtain rfl := Option.some.inj h
          cases hr : running with
          | true => exact .start hpc rfl
          | false => exact .stopped hpc rfl
      | fail => cases h
      | read _ => cases h
  | read pc =>
      cases move with
      | go => cases h
      | fail => cases h
      | read input =>
          obtain ⟨r', hr', rfl⟩ := Option.map_eq_some_iff.mp h
          obtain ⟨r, hr, rfl⟩ := Option.map_eq_some_iff.mp hr'
          cases r with
          | more pc' => exact .readMore hpc hr
          | command buffer => exact .command hpc hr
          | leave => exact .readLeave hpc hr
          | publish channelName content => exact .readPublish hpc hr
          | failed e => exact .readFailed hpc hr
  | reply r last =>
      cases move with
      | go =>
          obtain rfl := Option.some.inj h
          exact .reply hpc
      | fail => cases h
      | read _ => cases h
  | callSubscribe channelName =>
      cases move with
      | go =>
          obtain rfl := Option.some.inj h
          exact .callSubscribe hpc
      | fail => cases h
      | read _ => cases h
  | subscribing => cases move <;> cases h
  | activate attach =>
      cases move with
      | go =>
          obtain rfl := Option.some.inj h
          exact .activate hpc
      | fail => cases h
      | read _ => cases h
  | createReceiver attach =>
      cases move with
      | go =>
          obtain rfl := Option.some.inj h
          exact .createReceiver hpc
      | fail =>
          obtain rfl := Option.some.inj h
          exact .createFailed hpc
      | read _ => cases h
  | getId =>
      cases move with
      | go =>
          obtain rfl := Option.some.inj h
          exact .getId hpc
      | fail => cases h
      | read _ => cases h
  | findDetached id =>
      cases move with
      | go =>
          obtain rfl := Option.some.inj h
          split
          · exact .notFound hpc ‹_›
          · exact .attach hpc ‹_›
      | fail => cases h
      | read _ => cases h
  | callPending =>
      cases move with
      | go =>
          obtain ⟨k, hk, rfl⟩ := Option.map_eq_some_iff.mp h
          exact .callPending hpc hk
      | fail => cases h
      | read _ => cases h
  | pendingCount => cases move <;> cases h
  | deactivate =>
      cases move with
      | go =>
          obtain rfl := Option.some.inj h
          exact .deactivate hpc
      | fail => cases h
      | read _ => cases h
  | joinDetach =>
      cases move with
      | go =>
          obtain ⟨hexit, ho⟩ := Option.ite_none_right_eq_some.mp h
          obtain rfl := Option.some.inj ho
          exact .joinDetach hpc hexit
      | fail => cases h
      | read _ => cases h
  | addDetached =>
      cases move with
      | go =>
          obtain rfl := Option.some.inj h
          exact .addDetached hpc
      | fail =>
          obtain rfl := Option.some.inj h
          exact .addFailed hpc
      | read _ => cases h
  | linkDetached id =>
      cases move with
      | go =>
          obtain ⟨k, hk, rfl⟩ := Option.map_eq_some_iff.mp h
          exact .link hpc hk
      | fail => cases h
      | read _ => cases h
  | detachGetId =>
      cases move with
      | go =>
          obtain rfl := Option.some.inj h
          split
          · exact .detach hpc ‹_›
          · exact .detachFault hpc ‹_›
      | fail => cases h
      | read _ => cases h
  | callPublish channelName content =>
      cases move with
      | go =>
          obtain rfl := Option.some.inj h
          exact .callPublish hpc
      | fail =>
          obtain rfl := Option.some.inj h
          exact .publishFailed hpc
      | read _ => cases h
  | publishing => cases move <;> cases h
  | leave =>
      cases move with
      | go =>
          obtain rfl := Option.some.inj h
          exact .leave hpc
      | fail => cases h
      | read _ => cases h
  | joinLeave =>
      cases move with
      | go =>
          obtain ⟨hexit, ho⟩ := Option.ite_none_right_eq_some.mp h
          obtain rfl := Option.some.inj ho
          exact .joinLeave hpc hexit
      | fail => cases h
      | read _ => cases h
  | callUnsubscribe =>
      cases move with
      | go =>
          obtain ⟨k, hk, rfl⟩ := Option.map_eq_some_iff.mp h
          exact .callUnsubscribe hpc hk
      | fail => cases h
      | read _ => cases h
  | unsubscribing => cases move <;> cases h
  | callFree =>
      cases move with
      | go =>
          obtain ⟨k, hk, rfl⟩ := Option.map_eq_some_iff.mp h
          exact .callFree hpc hk
      | fail => cases h
      | read _ => cases h
  | freeing => cases move <;> cases h
  | closed => cases move <;> cases h
  | faulted => cases move <;> cases h

/-! ### The steps of a receiver -/

/-- The steps of a receiver outside the broker and its call of the broker. -/
inductive ReceiverStep (i : Nat) (registry : List Detached) (ctx : Connection) :
    Move → Outcome n → Prop where
  | goOn (hpc : ctx.receiver = .testActive) (hactive : ctx.active = true) :
      ReceiverStep i registry ctx .go
        (.step { ctx with receiver := .callReceive } registry none)
  | exit (hpc : ctx.receiver = .testActive) (hactive : ctx.active = false) :
      ReceiverStep i registry ctx .go (.step { ctx with receiver := .exited } registry none)
  | callReceive {k : Nat} (hpc : ctx.receiver = .callReceive) (hk : ctx.subscription = some k) :
      ReceiverStep i registry ctx .go
        (.call { ctx with receiver := .receiving } (.callReceive k true))
  | malloc {msg : MessageBroker.Message} (hpc : ctx.receiver = .malloc msg) :
      ReceiverStep i registry ctx .go (.step { ctx with receiver := .write msg } registry none)
  | mallocFailed {msg : MessageBroker.Message} (hpc : ctx.receiver = .malloc msg) :
      ReceiverStep i registry ctx .fail (.step { ctx with receiver := .testActive } registry none)
  | write {msg : MessageBroker.Message} {k : Nat} (hpc : ctx.receiver = .write msg)
      (hk : ctx.subscription = some k) :
      ReceiverStep i registry ctx .go
        (.step { ctx with receiver := .testActive } registry (some (.frame i k msg)))
  | writeFailed {msg : MessageBroker.Message} (hpc : ctx.receiver = .write msg) :
      ReceiverStep i registry ctx .fail (.step { ctx with receiver := .testActive } registry none)
  | sleep (hpc : ctx.receiver = .sleep) :
      ReceiverStep i registry ctx .go (.step { ctx with receiver := .testActive } registry none)

/-- A receiver takes one of the listed steps. -/
theorem subscriberReceiverThread_step {i : Nat} {registry : List Detached} {ctx : Connection}
    {move : Move} {o : Outcome n}
    (h : subscriberReceiverThread i registry ctx ctx.receiver move = some o) :
    ReceiverStep i registry ctx move o := by
  generalize hpc : ctx.receiver = pc at h
  unfold subscriberReceiverThread at h
  split at h
  · obtain rfl := Option.some.inj h
    split
    · exact .goOn hpc ‹_›
    · exact .exit hpc (by simpa using ‹¬ ctx.active = true›)
  · simp only [Option.map_eq_some_iff] at h
    obtain ⟨k, hk, rfl⟩ := h
    exact .callReceive hpc hk
  · obtain rfl := Option.some.inj h
    exact .malloc hpc
  · obtain rfl := Option.some.inj h
    exact .mallocFailed hpc
  · simp only [Option.map_eq_some_iff] at h
    obtain ⟨k, hk, rfl⟩ := h
    exact .write hpc hk
  · obtain rfl := Option.some.inj h
    exact .writeFailed hpc
  · obtain rfl := Option.some.inj h
    exact .sleep hpc
  · cases h

/-! ### The run of the broker -/

/-- The return of a call leaves the broker alone. -/
@[simp] theorem returnTo_broker (s : State n) (client : Client)
    (e : Option (MessageBroker.Event n)) : (s.returnTo client e).broker = s.broker := by
  cases client with
  | handler i => rfl
  | receiver i => rfl
  | publisher j => rfl
  | main =>
      simp only [State.returnTo]
      split <;> rfl

/-- The event of a call is the event of the broker. -/
theorem brokerEvent_callEvent (i : Nat) (ctx : Connection) (e : Option (MessageBroker.Event n)) :
    (e.map (callEvent i ctx)).bind brokerEvent = e := by
  cases e with
  | none => rfl
  | some e =>
      show brokerEvent (callEvent i ctx e) = some e
      unfold callEvent
      split <;> rfl

/-- An event of the broker is itself. -/
theorem brokerEvent_broker (e : Option (MessageBroker.Event n)) :
    (e.map Event.broker).bind brokerEvent = e := by
  cases e <;> rfl

/-- What a step of the server is for its broker: nothing, or a step of the broker. The step of
the broker is the step inside the broker that the action names, or a call. -/
theorem NetStep.broker {apiKey : Option CString} {s s' : State n} {a : Action n}
    {e : Option (Event n)} (h : NetStep apiKey s a s' e) :
    (s'.broker = s.broker ∧ e.bind brokerEvent = none) ∨
    ∃ b, (a = .broker b ∨ MessageBroker.AllocationsSucceed s.broker b) ∧
      MessageBroker.next s.broker b = some (s'.broker, e.bind brokerEvent) := by
  cases h with
  | accept => exact Or.inl ⟨rfl, rfl⟩
  | handler h =>
      refine Or.inl ⟨rfl, ?_⟩
      cases clientHandler_step rfl h <;> rfl
  | handlerCall h hb =>
      refine Or.inr ⟨_, Or.inr ?_, by rw [brokerEvent_callEvent]; exact hb⟩
      cases clientHandler_step rfl h <;> trivial
  | receiver h =>
      refine Or.inl ⟨rfl, ?_⟩
      cases subscriberReceiverThread_step h <;> rfl
  | receiverCall h hb =>
      refine Or.inr ⟨_, Or.inr ?_, by rw [brokerEvent_callEvent]; exact hb⟩
      cases subscriberReceiverThread_step h
      trivial
  | stop => exact Or.inl ⟨rfl, rfl⟩
  | freeStart => exact Or.inl ⟨rfl, rfl⟩
  | freeEnd => exact Or.inl ⟨rfl, rfl⟩
  | @freeUnsubscribe node _ _ _ _ _ hb =>
      exact Or.inr ⟨callAction .main (.callUnsubscribe node.2), Or.inr trivial,
        by rw [brokerEvent_broker]; exact hb⟩
  | @freeFree node _ _ _ _ _ hb =>
      exact Or.inr ⟨callAction .main (.callFree node.2), Or.inr trivial,
        by rw [brokerEvent_broker]; exact hb⟩
  | @publish j channelName content _ _ hb =>
      exact Or.inr ⟨callAction (.publisher j) (.callPublish channelName content), Or.inr trivial,
        by rw [brokerEvent_broker]; exact hb⟩
  | inside _ hb => exact Or.inr ⟨_, Or.inl rfl, by rw [brokerEvent_broker]; exact hb⟩
  | back _ hb =>
      exact Or.inr ⟨_, Or.inl rfl, by rw [brokerEvent_broker, returnTo_broker]; exact hb⟩

/-- The events of the broker in the events of the server. -/
def brokerTrace (tr : List (Event n)) : List (MessageBroker.Event n) := tr.filterMap brokerEvent

/-- No allocation and no start of a thread fails in the step. The `SSL_write` of a receiver may
fail. -/
def AllocationsSucceed (s : State n) : Action n → Prop
  | .handler _ .fail => False
  | .handler _ (.read .noMemory) => False
  | .broker a => MessageBroker.AllocationsSucceed s.broker a
  | _ => True

instance (s : State n) (a : Action n) : Decidable (AllocationsSucceed s a) := by
  unfold AllocationsSucceed
  split <;> infer_instance

section
variable {capacity : UInt64} {hcap : capacity ≠ 0} {apiKey : Option CString}

/-- A run of the server has a run of the broker inside. -/
theorem brokerRun_of_run {tr : List (Event n)} {s : State n}
    (h : (machine n capacity hcap apiKey).Run tr s) :
    (MessageBroker.machine n capacity hcap).Run (brokerTrace tr) s.broker := by
  refine h.map State.broker brokerEvent rfl ?_
  intro tr s a s' e _ _ hnext
  rcases (next_netStep hnext).broker with hsame | ⟨b, -, hb⟩
  · exact Or.inr hsame
  · exact Or.inl ⟨b, trivial, hb⟩

/-- When no allocation of the server fails, none of the broker does. -/
theorem brokerRunIf_of_run {K : State n → Action n → Prop}
    (hK : ∀ s a, K s (.broker a) → MessageBroker.AllocationsSucceed s.broker a)
    {tr : List (Event n)} {s : State n} (h : (machine n capacity hcap apiKey).RunIf K tr s) :
    (MessageBroker.machine n capacity hcap).RunIf MessageBroker.AllocationsSucceed
      (brokerTrace tr) s.broker := by
  refine h.map State.broker brokerEvent rfl ?_
  intro tr s a s' e _ hstep hnext
  rcases (next_netStep hnext).broker with hsame | ⟨b, hb', hb⟩
  · exact Or.inr hsame
  · refine Or.inl ⟨b, ?_, hb⟩
    rcases hb' with rfl | hb'
    · exact hK s b hstep
    · exact hb'

end

/-! ### Steps of other threads -/

/-- The thread that takes a step of the broker. -/
def actor : MessageBroker.Action n → Tid n
  | .dispatcher d => .dispatcher d
  | .submit c => .client c
  | .wait c => .client c
  | .pool c _ => .client c
  | .thread t _ => t

/-- A step of the broker moves one thread. -/
theorem pc_of_ne_actor {b b' : MessageBroker.State n} {a : MessageBroker.Action n}
    {e : Option (MessageBroker.Event n)} (h : MessageBroker.next b a = some (b', e)) {t : Tid n}
    (ht : t ≠ actor a) : b'.pc t = b.pc t := by
  cases a with
  | dispatcher d =>
      simp only [MessageBroker.next, Option.ite_none_right_eq_some, Option.map_eq_some_iff,
        Prod.mk.injEq] at h
      obtain ⟨-, r, -, rfl, -⟩ := h
      exact Function.update_of_ne ht _ _
  | submit c =>
      simp only [MessageBroker.next] at h
      split at h
      · simp only [Option.map_eq_some_iff, Prod.mk.injEq] at h
        obtain ⟨r, -, rfl, -⟩ := h
        exact Function.update_of_ne ht _ _
      · cases h
  | wait c =>
      simp only [MessageBroker.next, Option.ite_none_right_eq_some, Option.map_eq_some_iff,
        Prod.mk.injEq] at h
      obtain ⟨-, r, -, rfl, -⟩ := h
      exact Function.update_of_ne ht _ _
  | pool c move =>
      simp only [MessageBroker.next, Option.ite_none_right_eq_some, Option.map_eq_some_iff,
        Prod.mk.injEq] at h
      obtain ⟨-, r, -, rfl, -⟩ := h
      exact Function.update_of_ne ht _ _
  | thread t' move =>
      simp only [MessageBroker.next, Option.ite_none_left_eq_some, Option.map_eq_some_iff] at h
      obtain ⟨-, o, -, ho⟩ := h
      cases o with
      | step sh pc e' =>
          obtain ⟨rfl, -⟩ := Prod.mk.inj ho
          exact Function.update_of_ne ht _ _
      | fault =>
          obtain ⟨rfl, -⟩ := Prod.mk.inj ho
          rfl

/-- A client that takes a step inside the broker is inside the broker. -/
theorem not_idle_of_inside {b : MessageBroker.State n} {a : MessageBroker.Action n} {c : Nat}
    {r : MessageBroker.State n × Option (MessageBroker.Event n)}
    (hinside : isInside b a = true) (h : MessageBroker.next b a = some r)
    (hc : clientNumber a = some c) : b.pc (.client c) ≠ .idle := by
  intro hidle
  cases a with
  | dispatcher d => cases hc
  | submit c' =>
      obtain rfl := Option.some.inj hc
      simp only [MessageBroker.next, hidle] at h
      cases h
  | wait c' => cases hinside
  | pool c' move =>
      obtain rfl := Option.some.inj hc
      simp only [MessageBroker.next, hidle] at h
      cases h
  | thread t move =>
      cases t with
      | dispatcher d => cases hc
      | client c' =>
          obtain rfl := Option.some.inj hc
          simp [isInside, hidle] at hinside

/-- The thread of a step inside the broker is a dispatcher or the client of the step. -/
theorem actor_of_clientNumber {a : MessageBroker.Action n} {c : Nat} :
    actor a = .client c ↔ clientNumber a = some c := by
  cases a with
  | thread t move => cases t <;> simp [actor, clientNumber]
  | _ => simp [actor, clientNumber]

/-- The connection of a thread. -/
def connectionOf : Client → Option Nat
  | .handler i => some i
  | .receiver i => some i
  | _ => none

/-- The connection whose handler or receiver takes a step. -/
def stepOf : Action n → Option Nat
  | .handler i _ => some i
  | .receiver i _ => some i
  | .broker a => (clientNumber a).bind fun c => connectionOf (clientOf c)
  | _ => none

/-- The event is a command or a reply of the connection `i`. -/
def isAbout (i : Nat) : Event n → Bool
  | .command j _ => i == j
  | .reply j _ => i == j
  | _ => false

/-- A call of the broker does not move the threads of another connection. -/
theorem pc_of_call {b b' : MessageBroker.State n} {client client' : Client}
    {move : MessageBroker.Move n} {e : Option (MessageBroker.Event n)}
    (h : MessageBroker.next b (callAction client move) = some (b', e)) (hne : client' ≠ client) :
    b'.pc (.client client'.number) = b.pc (.client client'.number) := by
  refine pc_of_ne_actor h ?_
  intro heq
  exact hne (number_injective (Tid.client.inj heq))

/-- The event of a step inside the broker is not about a connection. -/
theorem isAbout_broker (i : Nat) (e : Option (MessageBroker.Event n)) :
    ∀ x ∈ e.map Event.broker, isAbout i x = false := by
  intro x hx
  cases e with
  | none => cases hx
  | some e =>
      obtain rfl := Option.some.inj hx
      rfl

/-- A step of another thread leaves a connection alone, apart from its acceptance. -/
theorem NetStep.frame {apiKey : Option CString} {s s' : State n} {a : Action n}
    {e : Option (Event n)} (h : NetStep apiKey s a s' e) {i : Nat} (hi : stepOf a ≠ some i) :
    (s'.connection i = s.connection i ∨
      (i = s.nextConnection ∧ s'.connection i = newConnection)) ∧
    (∀ client : Client, connectionOf client = some i →
      s'.broker.pc (.client client.number) = s.broker.pc (.client client.number)) ∧
    ∀ x ∈ e, isAbout i x = false := by
  have hclient : ∀ {client client' : Client}, connectionOf client = some i →
      connectionOf client' ≠ some i → client ≠ client' := by
    rintro client _ h₁ h₂ rfl
    exact h₂ h₁
  cases h with
  | accept =>
      refine ⟨?_, fun _ _ => rfl, fun x hx => ?_⟩
      · by_cases hnew : i = s.nextConnection
        · right
          refine ⟨hnew, ?_⟩
          rw [hnew]
          exact Function.update_self _ _ _
        · exact Or.inl (Function.update_of_ne hnew _ _)
      · obtain rfl := Option.some.inj hx
        rfl
  | @handler j move ctx registry e h =>
      have hij : i ≠ j := fun h => hi (by rw [h]; rfl)
      refine ⟨Or.inl (Function.update_of_ne hij _ _), fun _ _ => rfl, fun x hx => ?_⟩
      cases clientHandler_step rfl h <;> first
        | (cases hx; done)
        | (obtain rfl := Option.some.inj hx; simp [isAbout, hij])
  | @handlerCall j move ctx call b e h hb =>
      have hij : i ≠ j := fun h => hi (by rw [h]; rfl)
      have hj : connectionOf (.handler j) ≠ some i := fun h => hij (Option.some.inj h).symm
      refine ⟨Or.inl (Function.update_of_ne hij _ _),
        fun client hc => pc_of_call hb (hclient hc hj), fun x hx => ?_⟩
      cases e with
      | none => cases hx
      | some e =>
          obtain rfl := Option.some.inj hx
          unfold callEvent
          split <;> rfl
  | @receiver j move ctx registry e h =>
      have hij : i ≠ j := fun h => hi (by rw [h]; rfl)
      refine ⟨Or.inl (Function.update_of_ne hij _ _), fun _ _ => rfl, fun x hx => ?_⟩
      cases subscriberReceiverThread_step h <;> first
        | (cases hx; done)
        | (obtain rfl := Option.some.inj hx; rfl)
  | @receiverCall j move ctx call b e h hb =>
      have hij : i ≠ j := fun h => hi (by rw [h]; rfl)
      have hj : connectionOf (.receiver j) ≠ some i := fun h => hij (Option.some.inj h).symm
      refine ⟨Or.inl (Function.update_of_ne hij _ _),
        fun client hc => pc_of_call hb (hclient hc hj), fun x hx => ?_⟩
      cases e with
      | none => cases hx
      | some e =>
          obtain rfl := Option.some.inj hx
          unfold callEvent
          split <;> rfl
  | stop => exact ⟨Or.inl rfl, fun _ _ => rfl, fun x hx => by cases hx⟩
  | freeStart => exact ⟨Or.inl rfl, fun _ _ => rfl, fun x hx => by cases hx⟩
  | freeEnd => exact ⟨Or.inl rfl, fun _ _ => rfl, fun x hx => by cases hx⟩
  | freeUnsubscribe _ _ hb =>
      exact ⟨Or.inl rfl, fun client hc => pc_of_call hb (hclient hc (by simp [connectionOf])),
        isAbout_broker i _⟩
  | freeFree _ _ hb =>
      exact ⟨Or.inl rfl, fun client hc => pc_of_call hb (hclient hc (by simp [connectionOf])),
        isAbout_broker i _⟩
  | publish hb =>
      exact ⟨Or.inl rfl, fun client hc => pc_of_call hb (hclient hc (by simp [connectionOf])),
        isAbout_broker i _⟩
  | @inside a b e hinside hb hstay =>
      refine ⟨Or.inl rfl, fun client hc => pc_of_ne_actor hb ?_, isAbout_broker i _⟩
      intro heq
      rw [eq_comm, actor_of_clientNumber] at heq
      exact hi (by simp [stepOf, heq, hc])
  | @back a client b e hinside hb hclientNumber hidle =>
      have hstep : connectionOf client ≠ some i := by
        intro hc
        exact hi (by simp [stepOf, hclientNumber, hc])
      refine ⟨Or.inl ?_, fun client' hc => ?_, isAbout_broker i _⟩
      · cases client with
        | handler j =>
            exact Function.update_of_ne (fun h => hstep (by rw [h]; rfl)) _ _
        | receiver j =>
            exact Function.update_of_ne (fun h => hstep (by rw [h]; rfl)) _ _
        | publisher j => rfl
        | main =>
            simp only [State.returnTo]
            split <;> rfl
      · rw [returnTo_broker]
        refine pc_of_ne_actor hb ?_
        intro heq
        rw [eq_comm, actor_of_clientNumber, hclientNumber] at heq
        exact hstep (by rw [number_injective (Option.some.inj heq)]; exact hc)

/-- The return of a call of a handler leaves its receiver alone. -/
theorem handlerReturn_receiver (ctx : Connection) (e : Option (MessageBroker.Event n)) :
    (handlerReturn ctx e).receiver = ctx.receiver := by
  unfold handlerReturn
  split <;> rfl

/-- The return of a call of the thread that frees the server leaves the connections alone. -/
theorem returnTo_main_connection (s : State n) (e : Option (MessageBroker.Event n)) :
    (s.returnTo .main e).connection = s.connection := by
  simp only [State.returnTo]
  split <;> rfl

/-- Connections that have not been accepted do not exist. -/
theorem noConnection_of_run {capacity : UInt64} {hcap : capacity ≠ 0}
    {apiKey : Option CString} {tr : List (Event n)} {s : State n}
    (h : (machine n capacity hcap apiKey).Run tr s) :
    ∀ i, s.nextConnection ≤ i → s.connection i = noConnection := by
  refine h.induction (I := fun _ s => ∀ i, s.nextConnection ≤ i → s.connection i = noConnection)
    (fun _ _ => rfl) ?_
  intro tr s a s' e _ hinv _ hnext i hi
  cases next_netStep hnext with
  | accept =>
      have hne : i ≠ s.nextConnection := by
        rintro rfl
        exact absurd hi (Nat.not_succ_le_self _)
      rw [show State.connection _ i = s.connection i from Function.update_of_ne hne _ _]
      exact hinv i (Nat.le_of_succ_le hi)
  | @handler j move ctx registry e hf =>
      by_cases hij : i = j
      · -- There is no handler to take a step.
        subst hij
        rw [hinv i hi] at hf
        cases move <;> cases hf
      · rw [show State.connection _ i = s.connection i from Function.update_of_ne hij _ _]
        exact hinv i hi
  | @handlerCall j move ctx call b e hf hb =>
      by_cases hij : i = j
      · subst hij
        rw [hinv i hi] at hf
        cases move <;> cases hf
      · rw [show State.connection _ i = s.connection i from Function.update_of_ne hij _ _]
        exact hinv i hi
  | @receiver j move ctx registry e hf =>
      by_cases hij : i = j
      · subst hij
        rw [hinv i hi] at hf
        cases move <;> cases hf
      · rw [show State.connection _ i = s.connection i from Function.update_of_ne hij _ _]
        exact hinv i hi
  | @receiverCall j move ctx call b e hf hb =>
      by_cases hij : i = j
      · subst hij
        rw [hinv i hi] at hf
        cases move <;> cases hf
      · rw [show State.connection _ i = s.connection i from Function.update_of_ne hij _ _]
        exact hinv i hi
  | stop => exact hinv i hi
  | freeStart => exact hinv i hi
  | freeEnd => exact hinv i hi
  | freeUnsubscribe => exact hinv i hi
  | freeFree => exact hinv i hi
  | publish => exact hinv i hi
  | inside => exact hinv i hi
  | @back a client b e hinside hb hclient hidle =>
      cases client with
      | handler j =>
          by_cases hij : i = j
          · subst hij
            rw [show State.connection _ i = handlerReturn (s.connection i) e from
              Function.update_self _ _ _, hinv i hi]
            rfl
          · rw [show State.connection _ i = s.connection i from Function.update_of_ne hij _ _]
            exact hinv i hi
      | receiver j =>
          by_cases hij : i = j
          · subst hij
            rw [show State.connection _ i = receiverReturn (s.connection i) e from
              Function.update_self _ _ _, hinv i hi]
            rfl
          · rw [show State.connection _ i = s.connection i from Function.update_of_ne hij _ _]
            exact hinv i hi
      | publisher j => exact hinv i hi
      | main =>
          simp only [State.returnTo] at hi ⊢
          split at hi <;> exact hinv i hi

/-! ### The steps of one connection -/

/-- The connection that an event is about. -/
def eventOf : Event n → Option Nat
  | .command i _ | .reply i _ | .frame i _ _ | .attached i _ _ | .linked i _ _
  | .receiverCreated i | .receiverJoined i | .accepted i | .publish i _ _ => some i
  | .broker _ => none

/-- What a step of the server does to the connection `i`. -/
inductive ConnectionStep (apiKey : Option CString) (s s' : State n) (i : Nat) :
    Action n → Option (Event n) → Prop where
  | same {a : Action n} {e : Option (Event n)} (hctx : s'.connection i = s.connection i)
      (he : ∀ x, e = some x → eventOf x ≠ some i) : ConnectionStep apiKey s s' i a e
  | accept (hi : i = s.nextConnection) (hctx : s'.connection i = newConnection)
      (hbroker : s'.broker = s.broker) :
      ConnectionStep apiKey s s' i .accept (some (.accepted i))
  | handler {move : Move} {e : Option (Event n)}
      (h : HandlerStep apiKey i s.running s.broker.shared s.detachedSubscriptions (s.connection i)
        move (.step (s'.connection i) s'.detachedSubscriptions e))
      (hbroker : s'.broker = s.broker) : ConnectionStep apiKey s s' i (.handler i move) e
  | handlerCall {move : Move} {call : MessageBroker.Move n} {e : Option (MessageBroker.Event n)}
      (h : HandlerStep apiKey i s.running s.broker.shared s.detachedSubscriptions (s.connection i)
        move (.call (s'.connection i) call))
      (hb : MessageBroker.next s.broker (callAction (.handler i) call) = some (s'.broker, e)) :
      ConnectionStep apiKey s s' i (.handler i move) (e.map (callEvent i (s.connection i)))
  | receiver {move : Move} {e : Option (Event n)}
      (h : ReceiverStep i s.detachedSubscriptions (s.connection i) move
        (.step (s'.connection i) s'.detachedSubscriptions e))
      (hbroker : s'.broker = s.broker) : ConnectionStep apiKey s s' i (.receiver i move) e
  | receiverCall {move : Move} {call : MessageBroker.Move n} {e : Option (MessageBroker.Event n)}
      (h : ReceiverStep (n := n) i s.detachedSubscriptions (s.connection i) move
        (.call (s'.connection i) call))
      (hb : MessageBroker.next s.broker (callAction (.receiver i) call) = some (s'.broker, e)) :
      ConnectionStep apiKey s s' i (.receiver i move) (e.map (callEvent i (s.connection i)))
  | handlerReturn {b : MessageBroker.Action n} {e : Option (MessageBroker.Event n)}
      (hctx : s'.connection i = handlerReturn (s.connection i) e)
      (hinside : isInside s.broker b = true)
      (hb : MessageBroker.next s.broker b = some (s'.broker, e))
      (hclient : clientNumber b = some (Client.handler i).number)
      (hidle : s'.broker.pc (.client (Client.handler i).number) = .idle) :
      ConnectionStep apiKey s s' i (.broker b) (e.map .broker)
  | receiverReturn {b : MessageBroker.Action n} {e : Option (MessageBroker.Event n)}
      (hctx : s'.connection i = receiverReturn (s.connection i) e)
      (hinside : isInside s.broker b = true)
      (hb : MessageBroker.next s.broker b = some (s'.broker, e))
      (hclient : clientNumber b = some (Client.receiver i).number)
      (hidle : s'.broker.pc (.client (Client.receiver i).number) = .idle) :
      ConnectionStep apiKey s s' i (.broker b) (e.map .broker)

/-- The event of a step of a handler is about its connection. -/
theorem HandlerStep.eventOf {apiKey : Option CString} {i : Nat} {running : Bool}
    {sh : MessageBroker.Shared n} {registry registry' : List Detached} {ctx ctx' : Connection}
    {move : Move} {e : Option (Event n)}
    (h : HandlerStep apiKey i running sh registry ctx move (.step ctx' registry' e)) :
    ∀ x, e = some x → eventOf x = some i := by
  intro x hx
  cases h <;> cases hx <;> rfl

/-- The event of a step of a receiver is about its connection. -/
theorem ReceiverStep.eventOf {i : Nat} {registry registry' : List Detached}
    {ctx ctx' : Connection} {move : Move} {e : Option (Event n)}
    (h : ReceiverStep i registry ctx move (.step ctx' registry' e)) :
    ∀ x, e = some x → eventOf x = some i := by
  intro x hx
  cases h <;> cases hx
  rfl

/-- The event of a call is about the connection that calls, or about none. -/
theorem eventOf_callEvent {i j : Nat} {ctx : Connection} {e : Option (MessageBroker.Event n)}
    (hij : i ≠ j) : ∀ x, e.map (callEvent j ctx) = some x → eventOf x ≠ some i := by
  intro x hx
  obtain ⟨y, -, rfl⟩ := Option.map_eq_some_iff.mp hx
  unfold callEvent
  split
  · exact fun h => hij (Option.some.inj h).symm
  · exact Option.some_ne_none i ∘ Eq.symm

/-- The event of a step inside the broker is about no connection. -/
theorem eventOf_broker {i : Nat} {e : Option (MessageBroker.Event n)} :
    ∀ x, e.map Event.broker = some x → eventOf x ≠ some i := by
  intro x hx
  obtain ⟨y, -, rfl⟩ := Option.map_eq_some_iff.mp hx
  exact Option.some_ne_none i ∘ Eq.symm

/-- Every step does one of the listed things to a connection. -/
theorem NetStep.connectionStep {apiKey : Option CString} {s s' : State n} {a : Action n}
    {e : Option (Event n)} (h : NetStep apiKey s a s' e) (i : Nat) :
    ConnectionStep apiKey s s' i a e := by
  have hself : ∀ {j : Nat} {ctx : Connection}, i = j →
      Function.update s.connection j ctx i = ctx := by
    rintro j ctx rfl
    exact Function.update_self ..
  have hother : ∀ {j : Nat} {ctx : Connection}, i ≠ j →
      Function.update s.connection j ctx i = s.connection i :=
    fun hij => Function.update_of_ne hij ..
  have hne : ∀ {j : Nat} {o : Option Nat}, i ≠ j → o = some j → o ≠ some i := by
    rintro j o hij rfl h
    exact hij (Option.some.inj h).symm
  cases h with
  | accept hrunning =>
      by_cases hij : i = s.nextConnection
      · subst hij
        exact .accept rfl (hself rfl) rfl
      · refine .same (hother hij) fun x hx => hne hij ?_
        obtain rfl := Option.some.inj hx
        rfl
  | @handler j move ctx registry e h =>
      have hstep := clientHandler_step rfl h
      by_cases hij : i = j
      · subst hij
        refine .handler ?_ rfl
        show HandlerStep apiKey i _ _ _ _ move (.step (Function.update s.connection i ctx i) _ e)
        rw [hself rfl]
        exact hstep
      · exact .same (hother hij) fun x hx => hne hij (hstep.eventOf x hx)
  | @handlerCall j move ctx call b e h hb =>
      by_cases hij : i = j
      · subst hij
        refine .handlerCall ?_ hb
        show HandlerStep apiKey i _ _ _ _ move (.call (Function.update s.connection i ctx i) call)
        rw [hself rfl]
        exact clientHandler_step rfl h
      · exact .same (hother hij) (eventOf_callEvent hij)
  | @receiver j move ctx registry e h =>
      have hstep := subscriberReceiverThread_step h
      by_cases hij : i = j
      · subst hij
        refine .receiver ?_ rfl
        show ReceiverStep i _ _ move (.step (Function.update s.connection i ctx i) _ e)
        rw [hself rfl]
        exact hstep
      · exact .same (hother hij) fun x hx => hne hij (hstep.eventOf x hx)
  | @receiverCall j move ctx call b e h hb =>
      by_cases hij : i = j
      · subst hij
        refine .receiverCall ?_ hb
        show ReceiverStep i _ _ move (.call (Function.update s.connection i ctx i) call)
        rw [hself rfl]
        exact subscriberReceiverThread_step h
      · exact .same (hother hij) (eventOf_callEvent hij)
  | stop | freeStart | freeEnd => exact .same rfl fun x hx => by cases hx
  | freeUnsubscribe | freeFree | publish | inside => exact .same rfl eventOf_broker
  | @back a client b e hinside hb hclient hidle =>
      cases client with
      | handler j =>
          by_cases hij : i = j
          · subst hij
            exact .handlerReturn (hself rfl) hinside hb hclient hidle
          · exact .same (hother hij) eventOf_broker
      | receiver j =>
          by_cases hij : i = j
          · subst hij
            exact .receiverReturn (hself rfl) hinside hb hclient hidle
          · exact .same (hother hij) eventOf_broker
      | publisher j => exact .same rfl eventOf_broker
      | main => exact .same (congrFun (returnTo_main_connection _ e) i) eventOf_broker

end

end Miez.Proofs.NetworkServer
