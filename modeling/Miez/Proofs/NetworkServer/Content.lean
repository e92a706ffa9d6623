import Miez.Proofs.MessageBroker.Failures
import Miez.Proofs.NetworkServer.Scanning
import Miez.Proofs.NetworkServer.Steps

/-!
# `Miez.Proofs.NetworkServer.Content`: the content of a publish on its way to the subscribers

A handler reads the content of a publish by its length, and `message_broker_publish` copies it
with `strlen`. So the copy, and every frame made from it, ends before the first NUL byte.

`content_transparency`: a frame that the server writes for a message carries the published
content if and only if the content has no NUL byte. The invariant `ContentInv` follows the copies
from the broker into the hands of the receivers, in every run.
-/

set_option autoImplicit false

namespace Miez.Proofs.NetworkServer

open Miez.Lib
open Miez.NetworkServer
open Miez.Stdio (ascii decimal)
open Miez.ThreadPool (Tid)
open Miez.MessageBroker (Message PublisherTaskArg)
open Miez.Proofs
open Miez.Proofs.MessageBroker (FromPublish publishCalls sourceInv_of_run)

section
variable {n : Nat}

/-- The message that a receiver has taken out of the inbox and not written. -/
def inHand : ReceiverPc → Option Message
  | .malloc msg => some msg
  | .write msg => some msg
  | _ => none

/-- The messages in the hands of receivers and in frames are copies that publishes made, and the
content of a publish by a handler is the C string of what the handler has read. -/
structure ContentInv (tr : List (Event n)) (s : State n) : Prop where
  hand : ∀ i msg, inHand (s.connection i).receiver = some msg → FromPublish (brokerTrace tr) msg
  frame : ∀ i k msg, .frame i k msg ∈ tr → FromPublish (brokerTrace tr) msg
  publish : ∀ i content e, .publish i content e ∈ tr → ∃ c arg, e = .publishCall c arg ∧
    arg ∈ publishCalls (brokerTrace tr) ∧ arg.content = .ofBuffer content

/-- What the broker has shown after one more step. -/
theorem brokerTrace_append (tr : List (Event n)) (e : Option (Event n)) :
    brokerTrace (tr ++ e.toList) = brokerTrace tr ++ (e.bind brokerEvent).toList :=
  filterMap_append_toList brokerEvent tr e

/-- What the broker has shown stays. -/
theorem FromPublish.brokerTrace_append {tr tr' : List (Event n)} {msg : Message}
    (h : FromPublish (brokerTrace tr) msg) : FromPublish (brokerTrace (tr ++ tr')) msg := by
  rw [brokerTrace, List.filterMap_append]
  exact h.append

/-- A step that shows neither a frame nor a publish of a handler, and leaves what the receivers
hold, keeps `ContentInv`. -/
theorem ContentInv.same {tr : List (Event n)} {s s' : State n} {e : Option (Event n)}
    (hinv : ContentInv tr s)
    (hhand : ∀ i msg, inHand (s'.connection i).receiver = some msg →
      FromPublish (brokerTrace (tr ++ e.toList)) msg)
    (hframe : ∀ i k msg, e = some (.frame i k msg) → FromPublish (brokerTrace tr) msg)
    (hpublish : ∀ i content e', e = some (.publish i content e') → ∃ c arg,
      e' = .publishCall c arg ∧ arg.content = .ofBuffer content) :
    ContentInv (tr ++ e.toList) s' := by
  refine ⟨hhand, ?_, ?_⟩
  · intro i k msg hmem
    rcases List.mem_append.mp hmem with h | h
    · exact FromPublish.brokerTrace_append (hinv.frame i k msg h)
    · exact FromPublish.brokerTrace_append (hframe i k msg (by simpa using h))
  · intro i content e' hmem
    rcases List.mem_append.mp hmem with h | h
    · obtain ⟨c, arg, he, hcalls, hcontent⟩ := hinv.publish i content e' h
      refine ⟨c, arg, he, ?_, hcontent⟩
      rw [brokerTrace, List.filterMap_append]
      exact MessageBroker.mem_publishCalls_append hcalls
    · have he : e = some (.publish i content e') := by simpa using h
      obtain ⟨c, arg, rfl, hcontent⟩ := hpublish i content e' he
      refine ⟨c, arg, rfl, ?_, hcontent⟩
      rw [brokerTrace_append, he, publishCalls, List.filterMap_append]
      exact List.mem_append_right _ (by simp [brokerEvent, MessageBroker.publishCallArg])

/-- A write to one connection whose receiver holds nothing new. -/
theorem hand_update {P : Message → Prop} {f : Nat → Connection} {j : Nat} {ctx : Connection}
    (hf : ∀ i msg, inHand (f i).receiver = some msg → P msg)
    (hctx : ∀ msg, inHand ctx.receiver = some msg → P msg) :
    ∀ i msg, inHand (Function.update f j ctx i).receiver = some msg → P msg := by
  intro i msg h
  by_cases hij : i = j
  · subst hij
    rw [Function.update_self] at h
    exact hctx msg h
  · rw [Function.update_of_ne hij] at h
    exact hf i msg h

/-- A handler does not put a message into the hand of its receiver. -/
theorem HandlerStep.inHand {apiKey : Option CString} {i : Nat} {running : Bool}
    {sh : MessageBroker.Shared n} {registry : List Detached} {ctx : Connection} {move : Move}
    {o : Outcome n} (h : HandlerStep apiKey i running sh registry ctx move o) :
    (∀ ctx' registry' e msg, o = .step ctx' registry' e →
      NetworkServer.inHand ctx'.receiver = some msg → NetworkServer.inHand ctx.receiver = some msg) ∧
    (∀ ctx' call msg, o = .call ctx' call →
      NetworkServer.inHand ctx'.receiver = some msg → NetworkServer.inHand ctx.receiver = some msg) := by
  refine ⟨?_, ?_⟩
  · rintro ctx' registry' e msg rfl hmsg
    cases h with
    | command hpc hread => rwa [(handleCommand_fields apiKey ctx _).2.2.2] at hmsg
    | createReceiver hpc => cases hmsg
    | joinDetach hpc hexit => cases hmsg
    | joinLeave hpc hexit => cases hmsg
    | _ => exact hmsg
  · rintro ctx' call msg rfl hmsg
    cases h <;> exact hmsg

section
variable {capacity : UInt64} {hcap : capacity ≠ 0} {apiKey : Option CString}

/-- The message that a receiver gets from the broker is the copy that some publish made. -/
theorem fromPublish_of_return {tr : List (Event n)} {s : State n}
    (hrun : (machine n capacity hcap apiKey).Run tr s) {a : MessageBroker.Action n}
    {b : MessageBroker.State n} {e : Option (MessageBroker.Event n)}
    (hb : MessageBroker.next s.broker a = some (b, e)) {ctx : Connection} {msg : Message}
    (hold : inHand ctx.receiver = some msg → FromPublish (brokerTrace tr) msg)
    (hmsg : inHand (receiverReturn ctx e).receiver = some msg) :
    FromPublish (brokerTrace tr ++ e.toList) msg := by
  have hsource := sourceInv_of_run ((brokerRun_of_run hrun).snoc trivial hb)
  unfold receiverReturn at hmsg
  split at hmsg
  · rename_i t k x m hpc
    obtain rfl : m = msg := Option.some.inj hmsg
    exact hsource.got t k x m (by simp)
  · cases hmsg
  · exact (hold hmsg).append

/-- `ContentInv` holds in every state of every run. -/
theorem contentInv_of_run {tr : List (Event n)} {s : State n}
    (h : (machine n capacity hcap apiKey).Run tr s) : ContentInv tr s := by
  refine h.induction ?_ ?_
  · refine ⟨fun i msg h => ?_, fun i k msg h => ?_, fun i content e h => ?_⟩ <;> cases h
  · intro tr s a s' e hrun hinv _ hnext
    have hkeep : ∀ (e : Option (Event n)) i msg, inHand (s.connection i).receiver = some msg →
        FromPublish (brokerTrace (tr ++ e.toList)) msg := fun e i msg h =>
      FromPublish.brokerTrace_append (hinv.hand i msg h)
    -- The event of a step inside the broker is neither a frame nor a publish of a handler.
    have hframe : ∀ (e : Option (MessageBroker.Event n)) i k msg,
        e.map Event.broker = some (.frame i k msg) → FromPublish (brokerTrace tr) msg := by
      intro e i k msg h
      cases e <;> cases h
    have hpublish : ∀ (e : Option (MessageBroker.Event n)) i content e',
        e.map Event.broker = some (.publish i content e') → ∃ c arg,
          e' = .publishCall c arg ∧ arg.content = .ofBuffer content := by
      intro e i content e' h
      cases e <;> cases h
    cases next_netStep hnext with
    | accept =>
        refine hinv.same (hand_update (hkeep _) fun msg h => by cases h) ?_ ?_
        · intro i k msg h
          cases h
        · intro i content e' h
          cases h
    | @handler j move ctx registry e hf =>
        have hstep := clientHandler_step rfl hf
        refine hinv.same (hand_update (hkeep _) fun msg h =>
          hkeep _ j msg (hstep.inHand.1 _ _ _ msg rfl h)) ?_ ?_
        · rintro i k msg rfl
          cases hstep
        · rintro i content e' rfl
          cases hstep
    | @handlerCall j move ctx call b e hf hb =>
        have hstep := clientHandler_step rfl hf
        refine hinv.same (hand_update (hkeep _) fun msg h =>
          hkeep _ j msg (hstep.inHand.2 _ _ msg rfl h)) ?_ ?_
        · intro i k msg h
          cases e with
          | none => cases h
          | some e =>
              have hx := Option.some.inj h
              unfold callEvent at hx
              split at hx <;> cases hx
        · intro i content e' h
          cases e with
          | none => cases h
          | some e =>
              have hx := Option.some.inj h
              unfold callEvent at hx
              split at hx
              · -- The handler calls `message_broker_publish` with the content.
                rename_i channelName content' hpc
                obtain ⟨-, rfl, rfl⟩ := Event.publish.inj hx
                cases hstep with
                | callPublish hpc' =>
                    rw [hpc] at hpc'
                    obtain ⟨rfl, rfl⟩ := HandlerPc.callPublish.inj hpc'
                    obtain ⟨sh, pc, hcall, -⟩ := next_call (by rfl) (Or.inr (by simp)) hb
                    cases hcall
                    exact ⟨_, _, rfl, rfl⟩
                | callSubscribe hpc' => rw [hpc] at hpc'; cases hpc'
                | callPending hpc' => rw [hpc] at hpc'; cases hpc'
                | callUnsubscribe hpc' => rw [hpc] at hpc'; cases hpc'
                | callFree hpc' => rw [hpc] at hpc'; cases hpc'
              · cases hx
    | @receiver j move ctx registry e hf =>
        have hstep := subscriberReceiverThread_step hf
        have hhand : ∀ msg, inHand ctx.receiver = some msg →
            inHand (s.connection j).receiver = some msg := by
          intro msg h
          cases hstep with
          | malloc hpc =>
              rw [hpc]
              exact h
          | _ => cases h
        refine hinv.same (hand_update (hkeep _) fun msg h => hkeep _ j msg (hhand msg h)) ?_ ?_
        · rintro i k msg rfl
          cases hstep with
          | write hpc hk => exact hinv.hand j msg (by rw [hpc]; rfl)
        · rintro i content e' rfl
          cases hstep
    | @receiverCall j move ctx call b e hf hb =>
        have hstep := subscriberReceiverThread_step hf
        have hhand : ∀ msg, inHand ctx.receiver ≠ some msg := by
          intro msg h
          cases hstep
          cases h
        -- The call of `subscription_try_receive` shows nothing.
        have hnone : e = none := by
          cases hstep with
          | callReceive hpc hk =>
              cases e with
              | none => rfl
              | some e =>
                  obtain ⟨sh, pc, hcall, -⟩ := next_call (by rfl) (Or.inr (by simp)) hb
                  simp only [MessageBroker.call] at hcall
                  split at hcall <;> cases hcall
        subst hnone
        refine hinv.same (hand_update (hkeep _) fun msg h => absurd h (hhand msg)) ?_ ?_
        · intro i k msg h
          cases h
        · intro i content e' h
          cases h
    | stop => exact hinv.same (hkeep _) (fun _ _ _ h => by cases h) fun _ _ _ h => by cases h
    | freeStart =>
        exact hinv.same (hkeep _) (fun _ _ _ h => by cases h) fun _ _ _ h => by cases h
    | freeEnd => exact hinv.same (hkeep _) (fun _ _ _ h => by cases h) fun _ _ _ h => by cases h
    | freeUnsubscribe => exact hinv.same (hkeep _) (hframe _) (hpublish _)
    | freeFree => exact hinv.same (hkeep _) (hframe _) (hpublish _)
    | publish => exact hinv.same (hkeep _) (hframe _) (hpublish _)
    | inside => exact hinv.same (hkeep _) (hframe _) (hpublish _)
    | @back a client b e hinside hb hclient hidle =>
        refine hinv.same ?_ (hframe _) (hpublish _)
        cases client with
        | handler j =>
            refine hand_update (hkeep _) fun msg h => hkeep _ j msg ?_
            rwa [handlerReturn_receiver] at h
        | receiver j =>
            refine hand_update (hkeep _) fun msg h => ?_
            rw [brokerTrace_append, brokerEvent_broker]
            exact fromPublish_of_return hrun hb (hinv.hand j msg) h
        | publisher j => exact hkeep _
        | main =>
            rw [returnTo_main_connection]
            exact hkeep _

/-! ### The frames -/

/-- The decimal digits of a number hold no newline. -/
theorem newline_notMem_decimal (m : Nat) : (10 : UInt8) ∉ decimal m := by
  intro h
  obtain ⟨c, hc, hten⟩ := List.mem_map.mp h
  have hdigit : c.isDigit = true := Nat.isDigit_of_mem_toDigits (by omega) (by omega) hc
  have hrange : 48 ≤ c.toNat ∧ c.toNat ≤ 57 := Char.isDigit_iff_toNat.mp hdigit
  have hval : c.toNat % 2 ^ 8 = 10 := by
    have := congrArg UInt8.toNat hten
    rwa [UInt8.toNat_ofNat'] at this
  omega

/-- Two lists that agree up to their first newline agree after it. -/
theorem eq_of_append_newline {as as' bs bs' : List UInt8} (has : (10 : UInt8) ∉ as)
    (has' : (10 : UInt8) ∉ as') (h : as ++ 10 :: bs = as' ++ 10 :: bs') : bs = bs' := by
  have hdrop : ∀ {l : List UInt8} (r : List UInt8), (10 : UInt8) ∉ l →
      (l ++ 10 :: r).dropWhile (· ≠ 10) = 10 :: r := by
    intro l r hl
    have hne : ∀ b ∈ l, decide (b ≠ 10) = true := by
      intro b hb
      rw [decide_eq_true_iff]
      rintro rfl
      exact hl hb
    rw [List.dropWhile_append_of_pos hne]
    rfl
  have hcons : (10 : UInt8) :: bs = 10 :: bs' := by
    rw [← hdrop bs has, ← hdrop bs' has', h]
  exact (List.cons.inj hcons).2

/-- A frame tells its content. -/
theorem frameOf_inj {id : UInt64} {channelName : CString} {content content' : List UInt8}
    (h : frameOf id channelName content = frameOf id channelName content') :
    content = content' := by
  have hsplit : ∀ bs : List UInt8, frameOf id channelName bs =
      (ascii "MSG " ++ decimal id.toNat ++ ascii " " ++ channelName.bytes ++ ascii " ") ++
        (decimal bs.length ++ 10 :: (bs ++ ascii "\n")) := by
    intro bs
    simp only [frameOf, List.append_assoc]
    rfl
  rw [hsplit, hsplit] at h
  have htail := List.append_cancel_left h
  exact List.append_cancel_right (eq_of_append_newline (newline_notMem_decimal _)
    (newline_notMem_decimal _) htail)

/-- The C string at the start of a buffer is the whole buffer when the buffer has no NUL byte, and
only then. -/
theorem ofBuffer_bytes_iff (bs : List UInt8) : (CString.ofBuffer bs).bytes = bs ↔ 0 ∉ bs := by
  constructor
  · intro h
    rw [← h]
    exact (CString.ofBuffer bs).not_nul
  · exact ofBuffer_bytes

/-- The content of a publish reaches the subscribers. A frame that the server writes for the
message of a publish announces and carries the content that the handler has read if and only if
the content has no NUL byte. -/
theorem content_transparency {tr : List (Event n)} {s : State n}
    (h : (machine n capacity hcap apiKey).Run tr s) {i j k c : Nat} {content : List UInt8}
    {arg : PublisherTaskArg} {msg : Message}
    (hpublish : .publish i content (.publishCall c arg) ∈ tr) (hframe : .frame j k msg ∈ tr)
    (hsame : msg.publish = arg.publish) :
    frameBytes msg = frameOf msg.id msg.channelName content ↔ 0 ∉ content := by
  have hinv := contentInv_of_run h
  have hsource := sourceInv_of_run (brokerRun_of_run h)
  obtain ⟨c', arg', he, hcalls, hcontent⟩ := hinv.publish i content _ hpublish
  obtain ⟨-, rfl⟩ := MessageBroker.Event.publishCall.inj he
  obtain ⟨arg'', hcalls', rfl⟩ := hinv.frame j k msg hframe
  -- Publishes are numbered, so the frame is a copy of this publish.
  obtain rfl : arg'' = arg := hsource.unique arg'' hcalls' arg hcalls hsame
  have hbytes : arg''.message.content.bytes = (CString.ofBuffer content).bytes := by
    rw [← hcontent]
    rfl
  rw [← ofBuffer_bytes_iff, ← hbytes]
  constructor
  · exact frameOf_inj
  · intro heq
    show frameOf _ _ arg''.message.content.bytes = _
    rw [heq]

end

end

/-! ### One publish through the server -/

/-- The bytes of a command line, one read each. -/
def sendLine (line : String) : List (Action 1) :=
  (ascii line).map fun b => .handler 0 (.read (.bytes [b]))

/-- The handler of the connection 0 takes `m` steps outside the broker. -/
def handlerGo (m : Nat) : List (Action 1) := List.replicate m (.handler 0 .go)

/-- A thread takes `m` steps inside the broker. -/
def brokerGo (t : Tid 1) (m : Nat) : List (Action 1) :=
  List.replicate m (.broker (.thread t .go))

/-- The dispatcher takes a task from the queue and runs it for `m` steps, and then takes `k` steps
in the pool. -/
def dispatcherGo (m k : Nat) : List (Action 1) :=
  List.replicate 8 (.broker (.dispatcher 0)) ++ brokerGo (.dispatcher 0) m ++
    List.replicate k (.broker (.dispatcher 0))

/-- A client subscribes to `c` and publishes a content of two bytes there, and its receiver
writes the frame. -/
def publishAndReceive (content : List UInt8) : List (Action 1) :=
  [.accept] ++ handlerGo 1 ++ sendLine "AUTH k\n" ++ handlerGo 2 ++
    sendLine "SUBSCRIBE c\n" ++ handlerGo 1 ++ brokerGo (.client 1) 10 ++ handlerGo 5 ++
    sendLine "PUBLISH c 2\n" ++
    [.handler 0 (.read .memory), .handler 0 (.read (.bytes content)),
      .handler 0 (.read (.bytes [10]))] ++
    handlerGo 1 ++ [.broker (.submit 1)] ++ List.replicate 6 (.broker (.pool 1 .go)) ++
    dispatcherGo 8 0 ++ [.receiver 0 .go, .receiver 0 .go] ++ brokerGo (.client 2) 6 ++
    [.receiver 0 .go, .receiver 0 .go]

/-- The task of that publish. -/
def publishArg (content : List UInt8) : PublisherTaskArg :=
  ⟨1, .ofBuffer (ascii "c"), .ofBuffer content, 0⟩

/-- The frame of a content without a NUL byte carries the content. -/
theorem content_transparency_ab :
    ∃ tr s, (machine 1 4 (by decide) none).Run tr s ∧
      .publish 0 [97, 98] (.publishCall 1 (publishArg [97, 98])) ∈ tr ∧
      .frame 0 0 (publishArg [97, 98]).message ∈ tr ∧ (0 : UInt8) ∉ [(97 : UInt8), 98] ∧
      frameBytes (publishArg [97, 98]).message
        = frameOf 1 (.ofBuffer (ascii "c")) [97, 98] := by
  obtain ⟨tr, s, hrun, hp⟩ := Machine.run_of_exec (M := machine 1 4 (by decide) none)
    (publishAndReceive [97, 98]) (fun tr _ => decide
      (.publish 0 [97, 98] (.publishCall 1 (publishArg [97, 98])) ∈ tr ∧
        .frame 0 0 (publishArg [97, 98]).message ∈ tr)) (by decide +kernel)
  obtain ⟨hpublish, hframe⟩ := of_decide_eq_true hp
  exact ⟨tr, s, hrun, hpublish, hframe, by decide,
    (content_transparency hrun hpublish hframe rfl).mpr (by decide)⟩

/-- The content `a\0` is cut at its NUL byte: the frame announces one byte and carries `a`. -/
theorem nul_byte_cuts_content :
    ∃ tr s, (machine 1 4 (by decide) none).Run tr s ∧
      .publish 0 [97, 0] (.publishCall 1 (publishArg [97, 0])) ∈ tr ∧
      .frame 0 0 (publishArg [97, 0]).message ∈ tr ∧
      frameBytes (publishArg [97, 0]).message = frameOf 1 (.ofBuffer (ascii "c")) [97] ∧
      frameBytes (publishArg [97, 0]).message ≠ frameOf 1 (.ofBuffer (ascii "c")) [97, 0] := by
  obtain ⟨tr, s, hrun, hp⟩ := Machine.run_of_exec (M := machine 1 4 (by decide) none)
    (publishAndReceive [97, 0]) (fun tr _ => decide
      (.publish 0 [97, 0] (.publishCall 1 (publishArg [97, 0])) ∈ tr ∧
        .frame 0 0 (publishArg [97, 0]).message ∈ tr)) (by decide +kernel)
  obtain ⟨hpublish, hframe⟩ := of_decide_eq_true hp
  exact ⟨tr, s, hrun, hpublish, hframe, by decide +kernel, by decide +kernel⟩

end Miez.Proofs.NetworkServer
