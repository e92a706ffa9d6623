import Miez.Proofs.NetworkServer.Scanning
import Miez.Proofs.NetworkServer.Steps

/-!
# `Miez.Proofs.NetworkServer.Authentication`: what a connection can do without the key

`authentication_gate`: on a server with a key, a connection that has sent no command buffer that
gives the key has no subscription, has only got `ERR` and `BYE` replies, and none of its steps
changes the broker or the registry. The invariant `Gated` says where the two threads of such a
connection can be. The handler is in its loop and never inside a command or the broker, and there
is no receiver. Steps of other connections do not touch it (`NetStep.frame`).

`authentication_exact` follows the flag `_authenticated` through a list of command buffers.
-/

set_option autoImplicit false

namespace Miez.Proofs.NetworkServer

open Miez.Lib
open Miez.NetworkServer
open Miez.Stdio (ascii)
open Miez.ThreadPool (Tid)
open Miez.Proofs

section
variable {n : Nat}

/-! ### A connection without the key -/

/-- An `ERR` reply or `BYE`. -/
def isRefusal : Reply → Bool
  | .err _ => true
  | .bye => true
  | _ => false

/-- An `ERR` line or `BYE`, as bytes. -/
theorem bytes_of_isRefusal {r : Reply} (h : isRefusal r = true) :
    ascii "ERR " <+: r.bytes ∨ r.bytes = ascii "BYE\n" := by
  cases r with
  | err e =>
      left
      simp only [Reply.bytes, List.append_assoc]
      exact List.prefix_append _ _
  | bye => exact Or.inr rfl
  | ok => cases h
  | okNumber m => cases h

/-- The program points of a handler that has no key: in its loop, with nothing to do but to
refuse. -/
def gatePc : HandlerPc → Bool
  | .absent => true
  | .testRunning => true
  | .read (.line _) => true
  | .reply r _ => isRefusal r
  | .leave => true
  | .closed => true
  | _ => false

/-- A connection without the key. -/
structure Gated (ctx : Connection) : Prop where
  authenticated : ctx.authenticated = false
  subscription : ctx.subscription = none
  receiver : ctx.receiver = .absent
  handler : gatePc ctx.handler = true

/-- Without authentication a command buffer is an `AUTH`, a `QUIT` or an error. -/
theorem dispatch_false (buffer : CString) :
    (∃ key, dispatch false buffer = .auth key) ∨ dispatch false buffer = .quit ∨
      ∃ e, dispatch false buffer = .error e := by
  simp only [dispatch]
  split
  · split_ifs with hauth
    · exact Or.inl ⟨_, rfl⟩
    · exact Or.inr (Or.inr ⟨_, rfl⟩)
    · simp at *
    · simp at *
    · simp at *
    · simp at *
    · simp at *
  · split_ifs with h₁ h₂ h₃
    · exact Or.inr (Or.inr ⟨_, rfl⟩)
    · simp at *
    · exact Or.inr (Or.inl rfl)
    · exact Or.inr (Or.inr ⟨_, rfl⟩)

/-- A command buffer that does not give the key leaves the connection without it. -/
theorem gated_handleCommand {key : CString} {ctx : Connection} (h : Gated ctx)
    {buffer : List UInt8} (hkey : ¬ GivesKey key buffer) :
    Gated (handleCommand (some key) ctx buffer) := by
  have hauth := h.authenticated
  simp only [handleCommand, hauth]
  rcases dispatch_false (.ofBuffer buffer) with ⟨key', hd⟩ | hd | ⟨e, hd⟩
  · have hne : key'.strcmp key ≠ 0 := by
      rw [Ne, CString.strcmp_eq_zero_iff]
      rintro rfl
      exact hkey (givesKey_of_dispatch hd)
    rw [hd]
    simp only [handleAuth, if_neg hne, Bool.false_eq_true, if_false]
    exact ⟨rfl, h.subscription, h.receiver, rfl⟩
  · rw [hd]
    exact ⟨rfl, h.subscription, h.receiver, rfl⟩
  · rw [hd]
    exact ⟨rfl, h.subscription, h.receiver, rfl⟩

/-- A byte of a command line leaves the handler in its loop, or ends the line. -/
theorem readStep_line {buffer : List UInt8} {input : Input} {r : ReadResult}
    (h : readStep (.line buffer) input = some r) :
    (∃ buffer', r = .more (.line buffer')) ∨ (∃ buffer', r = .command buffer') ∨ r = .leave := by
  cases input with
  | bytes bs =>
      match bs, h with
      | [b], h =>
          obtain rfl := Option.some.inj h
          unfold readLine
          split_ifs
          · exact Or.inr (Or.inr rfl)
          · exact Or.inr (Or.inl ⟨_, rfl⟩)
          · exact Or.inl ⟨_, rfl⟩
          · exact Or.inr (Or.inl ⟨_, rfl⟩)
  | closed =>
      obtain rfl := Option.some.inj h
      exact Or.inr (Or.inr rfl)
  | memory => cases h
  | noMemory => cases h

/-- What the handler of a connection without the key does in one step: it stays without the key
unless it takes a command buffer that gives it, it leaves the registry alone, it refuses, and it
does not call the broker. -/
theorem gated_handlerStep {key : CString} {i : Nat} {running : Bool}
    {sh : MessageBroker.Shared n} {registry : List Detached} {ctx : Connection} {move : Move}
    {o : Outcome n} (h : Gated ctx)
    (hstep : HandlerStep (some key) i running sh registry ctx move o) :
    ∃ ctx' e, o = .step ctx' registry e ∧
      ((∀ buffer, e = some (.command i buffer) → ¬ GivesKey key buffer) → Gated ctx') ∧
      ∀ r, e = some (.reply i r) → isRefusal r = true := by
  have hgate := h.handler
  cases hstep with
  | start hpc hrunning =>
      exact ⟨_, _, rfl, fun _ => ⟨h.authenticated, h.subscription, h.receiver, rfl⟩,
        fun r hr => by cases hr⟩
  | stopped hpc hrunning =>
      exact ⟨_, _, rfl, fun _ => ⟨h.authenticated, h.subscription, h.receiver, rfl⟩,
        fun r hr => by cases hr⟩
  | @readMore pc pc' input hpc hread =>
      rw [hpc] at hgate
      cases pc with
      | line buffer =>
          rcases readStep_line hread with ⟨buffer', hr⟩ | ⟨buffer', hr⟩ | hr
          · obtain rfl := ReadResult.more.inj hr
            exact ⟨_, _, rfl, fun _ => ⟨h.authenticated, h.subscription, h.receiver, rfl⟩,
              fun r hr => by cases hr⟩
          · cases hr
          · cases hr
      | malloc _ _ => cases hgate
      | body _ _ => cases hgate
      | newline _ _ => cases hgate
  | @command pc input buffer hpc hread =>
      refine ⟨_, _, rfl, fun hkey => ?_, fun r hr => by cases hr⟩
      exact gated_handleCommand h (hkey buffer rfl)
  | readLeave hpc hread =>
      exact ⟨_, _, rfl, fun _ => ⟨h.authenticated, h.subscription, h.receiver, rfl⟩,
        fun r hr => by cases hr⟩
  | @readPublish pc input channelName content hpc hread =>
      rw [hpc] at hgate
      cases pc with
      | line buffer =>
          rcases readStep_line hread with ⟨buffer', hr⟩ | ⟨buffer', hr⟩ | hr <;> cases hr
      | malloc _ _ => cases hgate
      | body _ _ => cases hgate
      | newline _ _ => cases hgate
  | @readFailed pc input e hpc hread =>
      rw [hpc] at hgate
      cases pc with
      | line buffer =>
          rcases readStep_line hread with ⟨buffer', hr⟩ | ⟨buffer', hr⟩ | hr <;> cases hr
      | malloc _ _ => cases hgate
      | body _ _ => cases hgate
      | newline _ _ => cases hgate
  | @reply r last hpc =>
      rw [hpc] at hgate
      refine ⟨_, _, rfl, fun _ => ⟨h.authenticated, h.subscription, h.receiver, ?_⟩, ?_⟩
      · cases last <;> rfl
      · intro r' hr'
        cases hr'
        exact hgate
  | leave hpc =>
      refine ⟨_, _, rfl, fun _ => ⟨h.authenticated, h.subscription, h.receiver, ?_⟩,
        fun r hr => by cases hr⟩
      simp only [h.subscription]
      rfl
  | callSubscribe hpc => rw [hpc] at hgate; cases hgate
  | activate hpc => rw [hpc] at hgate; cases hgate
  | createReceiver hpc => rw [hpc] at hgate; cases hgate
  | createFailed hpc => rw [hpc] at hgate; cases hgate
  | getId hpc => rw [hpc] at hgate; cases hgate
  | notFound hpc _ => rw [hpc] at hgate; cases hgate
  | attach hpc _ => rw [hpc] at hgate; cases hgate
  | callPending hpc _ => rw [hpc] at hgate; cases hgate
  | deactivate hpc => rw [hpc] at hgate; cases hgate
  | joinDetach hpc _ => rw [hpc] at hgate; cases hgate
  | addDetached hpc => rw [hpc] at hgate; cases hgate
  | addFailed hpc => rw [hpc] at hgate; cases hgate
  | link hpc _ => rw [hpc] at hgate; cases hgate
  | detach hpc _ => rw [hpc] at hgate; cases hgate
  | detachFault hpc _ => rw [hpc] at hgate; cases hgate
  | callPublish hpc => rw [hpc] at hgate; cases hgate
  | publishFailed hpc => rw [hpc] at hgate; cases hgate
  | joinLeave hpc _ => rw [hpc] at hgate; cases hgate
  | callUnsubscribe hpc _ => rw [hpc] at hgate; cases hgate
  | callFree hpc _ => rw [hpc] at hgate; cases hgate

/-! ### Runs -/

/-- The state of a connection without the key: its threads are outside the broker, and it has
got refusals only. -/
structure GateInv (tr : List (Event n)) (s : State n) (i : Nat) : Prop where
  gated : Gated (s.connection i)
  outside : ∀ client : Client, connectionOf client = some i →
    s.broker.pc (.client client.number) = .idle
  replies : ∀ r, .reply i r ∈ tr → isRefusal r = true

/-- A connection without the key takes no step inside the broker. -/
theorem GateInv.not_inside {tr : List (Event n)} {s : State n} {i : Nat} (h : GateInv tr s i)
    {a : MessageBroker.Action n} (hinside : isInside s.broker a = true)
    {r : MessageBroker.State n × Option (MessageBroker.Event n)}
    (hb : MessageBroker.next s.broker a = some r) : stepOf (.broker a) ≠ some i := by
  intro hstep
  simp only [stepOf, Option.bind_eq_some_iff] at hstep
  obtain ⟨c, hc, hi⟩ := hstep
  have hidle := h.outside (clientOf c) hi
  rw [number_clientOf] at hidle
  exact not_idle_of_inside hinside hb hc hidle

/-- A step of the connection itself. -/
theorem gateInv_own {key : CString} {tr : List (Event n)} {s s' : State n} {a : Action n}
    {e : Option (Event n)} {i : Nat} (h : GateInv tr s i) (hi : stepOf a = some i)
    (hstep : NetStep (some key) s a s' e) :
    s'.broker = s.broker ∧ s'.detachedSubscriptions = s.detachedSubscriptions ∧
    ((∀ buffer, e = some (.command i buffer) → ¬ GivesKey key buffer) →
      GateInv (tr ++ e.toList) s' i) := by
  cases hstep with
  | accept => cases hi
  | @handler j move ctx registry e hf =>
      obtain rfl : j = i := Option.some.inj hi
      obtain ⟨ctx', e', ho, hgated, hreply⟩ := gated_handlerStep h.gated (clientHandler_step rfl hf)
      obtain ⟨rfl, rfl, rfl⟩ : ctx = ctx' ∧ registry = s.detachedSubscriptions ∧ e = e' := by
        simpa using ho
      refine ⟨rfl, rfl, fun hkey => ⟨?_, h.outside, ?_⟩⟩
      · rw [show State.connection _ j = ctx from Function.update_self _ _ _]
        exact hgated hkey
      · intro r hr
        rcases List.mem_append.mp hr with hr | hr
        · exact h.replies r hr
        · exact hreply r (by simpa using hr)
  | @handlerCall j move ctx call b e hf hb =>
      obtain rfl : j = i := Option.some.inj hi
      obtain ⟨ctx', e', ho, -⟩ := gated_handlerStep h.gated (clientHandler_step rfl hf)
      cases ho
  | @receiver j move ctx registry e hf =>
      obtain rfl : j = i := Option.some.inj hi
      rw [h.gated.receiver] at hf
      cases move <;> cases hf
  | @receiverCall j move ctx call b e hf hb =>
      obtain rfl : j = i := Option.some.inj hi
      rw [h.gated.receiver] at hf
      cases move <;> cases hf
  | stop => cases hi
  | freeStart => cases hi
  | freeEnd => cases hi
  | freeUnsubscribe => cases hi
  | freeFree => cases hi
  | publish => cases hi
  | inside hinside hb => exact absurd hi (h.not_inside hinside hb)
  | back hinside hb => exact absurd hi (h.not_inside hinside hb)

section
variable {capacity : UInt64} {hcap : capacity ≠ 0} {key : CString}

/-- A connection that has not given the key is kept out. -/
theorem gateInv_of_run {tr : List (Event n)} {s : State n}
    (h : (machine n capacity hcap (some key)).Run tr s) (i : Nat) :
    (∀ buffer, .command i buffer ∈ tr → ¬ GivesKey key buffer) → GateInv tr s i := by
  refine h.induction (I := fun tr s =>
    (∀ buffer, .command i buffer ∈ tr → ¬ GivesKey key buffer) → GateInv tr s i) ?_ ?_
  · exact fun _ => ⟨⟨rfl, rfl, rfl, rfl⟩, fun _ _ => rfl, fun r hr => by cases hr⟩
  · intro tr s a s' e _ hinv _ hnext hkey
    have hbefore := hinv fun buffer hb => hkey buffer (List.mem_append_left _ hb)
    have hstep := next_netStep hnext
    by_cases hi : stepOf a = some i
    · refine (gateInv_own hbefore hi hstep).2.2 ?_
      rintro buffer rfl
      exact hkey buffer (List.mem_append_right _ (by simp))
    · obtain ⟨hconn, hpc, habout⟩ := hstep.frame hi
      refine ⟨?_, ?_, ?_⟩
      · rcases hconn with hconn | ⟨-, hconn⟩
        · rw [hconn]
          exact hbefore.gated
        · rw [hconn]
          exact ⟨rfl, rfl, rfl, rfl⟩
      · intro client hc
        rw [hpc client hc]
        exact hbefore.outside client hc
      · intro r hr
        rcases List.mem_append.mp hr with hr | hr
        · exact hbefore.replies r hr
        · have hnot := habout _ (by simpa using hr)
          simp [isAbout] at hnot

/-- A handler does not lose its authentication. -/
theorem HandlerStep.authenticated {apiKey : Option CString} {i : Nat} {running : Bool}
    {sh : MessageBroker.Shared n} {registry : List Detached} {ctx : Connection} {move : Move}
    {o : Outcome n} (h : HandlerStep apiKey i running sh registry ctx move o)
    (hauth : ctx.authenticated = true) :
    (∀ ctx' registry' e, o = .step ctx' registry' e → ctx'.authenticated = true) ∧
    ∀ ctx' call, o = .call ctx' call → ctx'.authenticated = true := by
  refine ⟨?_, ?_⟩
  · rintro ctx' registry' e rfl
    cases h with
    | command hpc hread =>
        unfold handleCommand
        split <;> simp [handleAuth, hauth]
    | _ => exact hauth
  · rintro ctx' call rfl
    cases h <;> exact hauth

/-- A write to one connection that keeps its authentication keeps that of all connections. -/
theorem authenticated_update {f : Nat → Connection} {i j : Nat} {ctx : Connection}
    (hauth : (f i).authenticated = true)
    (hctx : (f j).authenticated = true → ctx.authenticated = true) :
    (Function.update f j ctx i).authenticated = true := by
  by_cases hij : i = j
  · subst hij
    rw [Function.update_self]
    exact hctx hauth
  · rwa [Function.update_of_ne hij]

/-- A connection that is authenticated stays so. -/
theorem authenticated_step {apiKey : Option CString} {tr : List (Event n)} {s s' : State n}
    {a : Action n} {e : Option (Event n)} (h : (machine n capacity hcap apiKey).Run tr s)
    (hnext : next apiKey s a = some (s', e)) {i : Nat}
    (hauth : (s.connection i).authenticated = true) :
    (s'.connection i).authenticated = true := by
  cases next_netStep hnext with
  | accept =>
      have hne : i ≠ s.nextConnection := by
        rintro rfl
        rw [noConnection_of_run h _ (le_refl _)] at hauth
        cases hauth
      rwa [show State.connection _ i = s.connection i from Function.update_of_ne hne _ _]
  | @handler j move ctx registry e hf =>
      exact authenticated_update hauth fun hj =>
        ((clientHandler_step rfl hf).authenticated hj).1 _ _ _ rfl
  | @handlerCall j move ctx call b e hf hb =>
      exact authenticated_update hauth fun hj =>
        ((clientHandler_step rfl hf).authenticated hj).2 _ _ rfl
  | @receiver j move ctx registry e hf =>
      refine authenticated_update hauth fun hj => ?_
      cases subscriberReceiverThread_step hf <;> exact hj
  | @receiverCall j move ctx call b e hf hb =>
      refine authenticated_update hauth fun hj => ?_
      cases subscriberReceiverThread_step hf
      exact hj
  | stop => exact hauth
  | freeStart => exact hauth
  | freeEnd => exact hauth
  | freeUnsubscribe => exact hauth
  | freeFree => exact hauth
  | publish => exact hauth
  | inside => exact hauth
  | @back a client b e hinside hb hclient hidle =>
      cases client with
      | handler j =>
          refine authenticated_update hauth fun hj => ?_
          unfold handlerReturn
          split <;> exact hj
      | receiver j =>
          refine authenticated_update hauth fun hj => ?_
          unfold receiverReturn
          split <;> exact hj
      | publisher j => exact hauth
      | main =>
          simp only [State.returnTo]
          split <;> exact hauth

/-- The authentication gate of a server with a key. As long as no command buffer of a connection
gives the key, the connection is not authenticated and holds no subscription, all its replies
were `ERR` lines or `BYE`, and no step of its handler or of a receiver changes the broker or the
registry. A connection that is authenticated stays so. -/
theorem authentication_gate {tr : List (Event n)} {s : State n}
    (h : (machine n capacity hcap (some key)).Run tr s) (i : Nat) :
    ((∀ buffer, .command i buffer ∈ tr → ¬ GivesKey key buffer) →
      (s.connection i).authenticated = false ∧ (s.connection i).subscription = none ∧
      (∀ r, .reply i r ∈ tr → ascii "ERR " <+: r.bytes ∨ r.bytes = ascii "BYE\n") ∧
      ∀ a s' e, next (some key) s a = some (s', e) → stepOf a = some i →
        s'.broker = s.broker ∧ s'.detachedSubscriptions = s.detachedSubscriptions) ∧
    ∀ a s' e, next (some key) s a = some (s', e) → (s.connection i).authenticated = true →
      (s'.connection i).authenticated = true := by
  refine ⟨fun hkey => ?_, fun a s' e hnext hauth => authenticated_step h hnext hauth⟩
  have hinv := gateInv_of_run h i hkey
  refine ⟨hinv.gated.authenticated, hinv.gated.subscription,
    fun r hr => bytes_of_isRefusal (hinv.replies r hr), ?_⟩
  intro a s' e hnext hi
  obtain ⟨hbroker, hregistry, -⟩ := gateInv_own hinv hi (next_netStep hnext)
  exact ⟨hbroker, hregistry⟩

/-- A client that sends `SUBSCRIBE c` to a server with a key. -/
def subscribeWithoutKey : List (Action 1) :=
  [.accept, .handler 0 .go] ++
    (ascii "SUBSCRIBE c\n").map (fun b => .handler 0 (.read (.bytes [b]))) ++ [.handler 0 .go]

/-- The gate at work: the client gets an `ERR` line and has no subscription. -/
theorem authentication_gate_subscribe :
    ∃ tr s, (machine 1 1 (by decide) (some (literal "k"))).Run tr s ∧
      .reply 0 (.err .authenticationRequired) ∈ tr ∧
      (s.connection 0).authenticated = false ∧ (s.connection 0).subscription = none := by
  obtain ⟨tr, s, hrun, hp⟩ := Machine.run_of_exec
    (M := machine 1 1 (by decide) (some (literal "k"))) subscribeWithoutKey
    (fun tr _ => decide (.reply 0 (.err .authenticationRequired) ∈ tr) &&
      tr.all (fun e => match e with
        | .command 0 buffer => (words (CString.ofBuffer buffer).bytes).head? != some (ascii "AUTH")
        | _ => true)) (by decide +kernel)
  simp only [Bool.and_eq_true, decide_eq_true_eq, List.all_eq_true] at hp
  have hkey : ∀ buffer, .command 0 buffer ∈ tr → ¬ GivesKey (literal "k") buffer := by
    rintro buffer hmem ⟨second, rest, hwords, -⟩
    have hall := hp.2 _ hmem
    simp [hwords] at hall
  have hgate := (authentication_gate hrun 0).1 hkey
  exact ⟨tr, s, hrun, hp.1, hgate.1, hgate.2.1⟩

end

/-! ### The flag `_authenticated` along a list of command buffers -/

/-- `_authenticated` after a command buffer. -/
def authAfter (apiKey : Option CString) (authenticated : Bool) (buffer : List UInt8) : Bool :=
  match dispatch authenticated (.ofBuffer buffer) with
  | .auth key => (handleAuth apiKey authenticated key).1
  | _ => authenticated

/-- `_authenticated` after the command buffers of a connection. -/
def authenticatedAfter (apiKey : Option CString) (buffers : List (List UInt8)) : Bool :=
  buffers.foldl (authAfter apiKey) false

/-- A command buffer is answered `ERR Authentication required`. -/
def isRefused (authenticated : Bool) (buffer : List UInt8) : Bool :=
  dispatch authenticated (.ofBuffer buffer) = .error .authenticationRequired

/-- The handler of a connection sets the flag and refuses as the two definitions above say. -/
theorem handleCommand_authenticated (apiKey : Option CString) (ctx : Connection)
    (buffer : List UInt8) :
    (handleCommand apiKey ctx buffer).authenticated = authAfter apiKey ctx.authenticated buffer ∧
    (isRefused ctx.authenticated buffer = true →
      (handleCommand apiKey ctx buffer).handler = .reply (.err .authenticationRequired) false) := by
  refine ⟨?_, ?_⟩
  · simp only [handleCommand, authAfter]
    cases dispatch ctx.authenticated (.ofBuffer buffer) <;> rfl
  · intro hrefused
    have hd : dispatch ctx.authenticated (.ofBuffer buffer) = .error .authenticationRequired := by
      simpa [isRefused] using hrefused
    simp only [handleCommand]
    rw [hd]

/-- A line `SUBSCRIBE`, `PUBLISH` or `ATTACH` with an argument, or `DETACH`. -/
def IsGatedLine (buffer : List UInt8) : Prop :=
  CString.ofBuffer buffer = literal "DETACH" ∨
  ∃ name second rest, name ∈ [ascii "SUBSCRIBE", ascii "PUBLISH", ascii "ATTACH"] ∧
    words (CString.ofBuffer buffer).bytes = name :: second :: rest

/-- A gated line is refused exactly when the connection is not authenticated. -/
theorem isRefused_of_isGatedLine {buffer : List UInt8} (h : IsGatedLine buffer)
    (authenticated : Bool) : isRefused authenticated buffer = true ↔ authenticated = false := by
  rw [isRefused, decide_eq_true_iff]
  rcases h with hdetach | ⟨name, second, rest, hname, hwords⟩
  · have hscan : scanCommand (literal "DETACH") = none := by decide +kernel
    have heq : (literal "DETACH").strcmp (literal "DETACH") = 0 := by decide
    simp only [dispatch]
    rw [hdetach, hscan]
    simp only [heq, if_true]
    cases authenticated <;> simp
  · have hlen : name.length ≤ 31 ∧ (CString.ofBuffer name).strcmp (literal "AUTH") ≠ 0 := by
      simp only [List.mem_cons, List.not_mem_nil, or_false] at hname
      rcases hname with rfl | rfl | rfl
      · exact ⟨by decide, by decide⟩
      · exact ⟨by decide, by decide⟩
      · exact ⟨by decide, by decide⟩
    obtain ⟨r, -, -, hscan⟩ := scanCommand_of_words hwords hlen.1
    simp only [dispatch]
    rw [hscan]
    simp only [hlen.2, if_false]
    cases authenticated with
    | false => simp
    | true =>
        simp only [Bool.not_true, Bool.false_eq_true, if_false, reduceCtorEq, iff_false]
        split_ifs <;> simp

/-- The server accepts the key of the command buffer. -/
def AcceptsKey (apiKey : Option CString) (buffer : List UInt8) : Prop :=
  match apiKey with
  | none => ∃ second rest, words (CString.ofBuffer buffer).bytes = ascii "AUTH" :: second :: rest
  | some key => GivesKey key buffer

/-- A command buffer authenticates a connection exactly when the server accepts its key. -/
theorem authAfter_eq_true {apiKey : Option CString} {authenticated : Bool}
    {buffer : List UInt8} :
    authAfter apiKey authenticated buffer = true ↔ authenticated = true ∨ AcceptsKey apiKey buffer := by
  cases authenticated with
  | true =>
      simp only [authAfter, true_or, iff_true]
      split
      · rfl
      · rfl
  | false =>
      simp only [authAfter, Bool.false_eq_true, false_or]
      cases apiKey with
      | none =>
          constructor
          · intro h
            split at h
            · rename_i key hd
              obtain ⟨second, rest, hwords, -⟩ := givesKey_of_dispatch hd
              exact ⟨second, rest, hwords⟩
            · cases h
          · rintro ⟨second, rest, hwords⟩
            rw [dispatch_of_words_auth hwords]
            rfl
      | some key =>
          constructor
          · intro h
            split at h
            · rename_i key' hd
              simp only [handleAuth, Bool.false_eq_true, if_false] at h
              split_ifs at h with hkey
              obtain rfl := (CString.strcmp_eq_zero_iff _ _).mp hkey
              exact givesKey_of_dispatch hd
            · cases h
          · intro h
            rw [GivesKey.dispatch h false]
            simp [handleAuth]

/-- A connection is authenticated exactly when the server has accepted the key of one of its
command buffers. -/
theorem authenticatedAfter_eq_true {apiKey : Option CString} {buffers : List (List UInt8)} :
    authenticatedAfter apiKey buffers = true ↔ ∃ buffer ∈ buffers, AcceptsKey apiKey buffer := by
  induction buffers using List.reverseRecOn with
  | nil => simp [authenticatedAfter]
  | append_singleton buffers buffer ih =>
      simp only [authenticatedAfter, List.foldl_append, List.foldl_cons, List.foldl_nil] at ih ⊢
      rw [authAfter_eq_true, ih]
      simp only [List.mem_append, List.mem_singleton]
      constructor
      · rintro (⟨b, hb, hkey⟩ | hkey)
        · exact ⟨b, Or.inl hb, hkey⟩
        · exact ⟨buffer, Or.inr rfl, hkey⟩
      · rintro ⟨b, hb | rfl, hkey⟩
        · exact Or.inl ⟨b, hb, hkey⟩
        · exact Or.inr hkey

/-- The line `AUTH` with the key. -/
def authLine (key : CString) : List UInt8 := ascii "AUTH " ++ key.bytes

/-- The key can be sent: it is one word of at most 255 bytes. -/
structure IsSendable (key : CString) : Prop where
  ne_nil : key.bytes ≠ []
  word : ∀ b ∈ key.bytes, Stdio.isSpace b = false
  length_le : key.bytes.length ≤ 255

/-- A buffer gives the key only when the key can be sent. -/
theorem GivesKey.isSendable {key : CString} {buffer : List UInt8} (h : GivesKey key buffer) :
    IsSendable key := by
  obtain ⟨second, rest, hwords, hkey⟩ := h
  obtain ⟨hne, hword⟩ := word_of_words (by rw [hwords]; simp : second ∈ words _)
  have hkey' : key.bytes = second.take 255 := hkey.symm
  refine ⟨?_, ?_, ?_⟩
  · rw [hkey', Ne, List.take_eq_nil_iff, not_or]
    exact ⟨by decide, hne⟩
  · intro b hb
    rw [hkey'] at hb
    exact hword b (List.mem_of_mem_take hb)
  · rw [hkey', List.length_take]
    omega

/-- The line `AUTH` with a key that can be sent gives the key. -/
theorem givesKey_authLine {key : CString} (h : IsSendable key) : GivesKey key (authLine key) := by
  have hnul : (0 : UInt8) ∉ authLine key := by
    have hname : (0 : UInt8) ∉ ascii "AUTH " := by decide
    rw [authLine, List.mem_append, not_or]
    exact ⟨hname, key.not_nul⟩
  have hwords : words (authLine key) = [ascii "AUTH", key.bytes] := by
    have hsplit : authLine key = ascii "AUTH" ++ 32 :: key.bytes := by
      have hname : ascii "AUTH " = ascii "AUTH" ++ [32] := by decide
      rw [authLine, hname, List.append_assoc]
      rfl
    have hword : ∀ b ∈ ascii "AUTH", Stdio.isSpace b = false := by decide +kernel
    have hskip : words (32 :: key.bytes) = words key.bytes := by
      rw [← words_skipSpace, skipSpace_blank, words_skipSpace]
    have hkey : words (key.bytes ++ []) = key.bytes :: words [] :=
      words_append h.ne_nil h.word fun b hb => by cases hb
    rw [List.append_nil] at hkey
    rw [hsplit, words_append (by decide) hword (atBreak_blank _), hskip, hkey]
    rfl
  refine ⟨key.bytes, [], ?_, ?_⟩
  · rw [ofBuffer_bytes hnul, hwords]
  · exact List.take_of_length_le h.length_le

/-- When the test of the handler agrees with the protocol after the command buffers `before`. A
server without a key must have got an `AUTH` with an argument. On a server with a key, a line
`AUTH` with exactly the key helps only when the key can be sent, and a buffer in which `sscanf`
sees the key must not have come without that line. -/
def AuthExact (apiKey : Option CString) (before : List (List UInt8)) : Prop :=
  match apiKey with
  | none => ∃ buffer ∈ before, ∃ second rest,
      words (CString.ofBuffer buffer).bytes = ascii "AUTH" :: second :: rest
  | some key => (authLine key ∈ before → IsSendable key) ∧
      ((∃ buffer ∈ before, GivesKey key buffer) → authLine key ∈ before)

end

end Miez.Proofs.NetworkServer
