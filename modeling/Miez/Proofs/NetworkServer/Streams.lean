import Miez.Proofs.MessageBroker.Streams
import Miez.Proofs.NetworkServer.FrameBuffer
import Miez.Proofs.NetworkServer.Frames
import Miez.Proofs.NetworkServer.Reconnection

/-!
# `Miez.Proofs.NetworkServer.Streams`: the stream of a subscription over all its connections

The layers of the server together. The fan-outs of a channel go into the queue of a subscription
without a gap (`stream_of_subscription`), the receivers of its connections write what they take out
of the queue (`FramesInv`), and a client decodes what they have written (`decode_frames`). So the
bytes that the clients of a subscription have read, one connection after the other, decode to what
was fanned out on its channel, up to what is still on its way.
-/

set_option autoImplicit false

namespace Miez.Proofs.NetworkServer

open Miez.Lib
open Miez.NetworkServer
open Miez.ThreadPool (Tid)
open Miez.MessageBroker (Message)
open Miez.Proofs.MessageBroker (fannedOut stillComing)

section
variable {n : Nat} {capacity : UInt64} {hcap : capacity ≠ 0} {apiKey : Option CString}

/-- No allocation, no start of a thread and no `SSL_write` of a frame fails in the step. -/
def NothingFails (s : State n) (a : Action n) : Prop :=
  AllocationsSucceed s a ∧ ReceiversSucceed s a

instance (s : State n) (a : Action n) : Decidable (NothingFails s a) :=
  inferInstanceAs (Decidable (_ ∧ _))

/-- What a client makes of a message. -/
def decoded (msg : Message) : Decoded :=
  (msg.id.toNat, msg.channelName.bytes, msg.content.bytes)

/-- The bytes that the receivers have written for the subscription `k`, on all its connections in a
row. -/
def writtenFor (tr : List (Event n)) (k : Nat) : List UInt8 := (framesOf tr k).flatMap frameBytes

/-- What a subscription still gets after its frames: the message in the hand of its receiver, the
inbox and the message that a fan-out has still to put there. -/
theorem frames_of_subscription {tr : List (Event n)} {s : State n}
    (h : (machine n capacity hcap apiKey).RunIf NothingFails tr s)
    (hbound : s.broker.shared.nextSubscribe < 2 ^ 64)
    {pre post : List (MessageBroker.Event n)} {t : Tid n} {k x : Nat} {name : CString}
    (htr : brokerTrace tr = pre ++ .subscribed t k x name :: post)
    (hnot : ∀ t', .unsubscribeCall t' k ∉ brokerTrace tr) :
    ∃ early hand, early <:+ fannedOut pre name ∧ hand.length ≤ 1 ∧
      (∀ msg ∈ hand, ∃ i, carried (s.connection i) = some (k, msg)) ∧
      framesOf tr k ++ (hand ++ ((s.broker.shared.proxy x).inbox ++ stillComing s.broker x))
        = early ++ fannedOut post name := by
  have hbroker : (MessageBroker.machine n capacity hcap).RunIf MessageBroker.AllocationsSucceed
      (brokerTrace tr) s.broker := brokerRunIf_of_run (fun s a hK => hK.1) h
  have hframes := framesInv_of_run (h.mono fun _ _ hK => hK.2)
  have howned : MessageBroker.Owned (brokerTrace tr) k x := ⟨t, name, by simp [htr]⟩
  obtain ⟨early, hearly, hstream⟩ :=
    MessageBroker.stream_of_subscription hbroker hbound htr hnot
  by_cases hcarried : ∃ i msg, carried (s.connection i) = some (k, msg)
  · obtain ⟨i, msg, hmsg⟩ := hcarried
    refine ⟨early, [msg], hearly, le_rfl, ?_, ?_⟩
    · intro msg' hmem
      rw [List.mem_singleton.mp hmem]
      exact ⟨i, hmsg⟩
    · rw [← hstream, hframes.hand i k msg x hmsg howned, List.append_assoc]
  · refine ⟨early, [], hearly, Nat.zero_le 1, fun msg hmem => (by cases hmem), ?_⟩
    have hfree : ∀ i msg, carried (s.connection i) ≠ some (k, msg) :=
      fun i msg hmsg => hcarried ⟨i, msg, hmsg⟩
    rw [← hstream, hframes.free k x hfree howned, List.nil_append]

/-- The messages of the frames are sendable when their contents are not too long: the channel of a
network subscription is one word. -/
theorem sendable_of_frame {tr : List (Event n)} {s : State n}
    (h : (machine n capacity hcap apiKey).Run tr s) {k : Nat} {msg : Message}
    (hmsg : msg ∈ framesOf tr k) (hcontent : totalLen msg.content.strlen < 2 ^ 64) :
    Sendable msg := by
  obtain ⟨e, he, hframe⟩ := List.mem_filterMap.mp hmsg
  obtain ⟨i, rfl⟩ : ∃ i, e = .frame i k msg := by
    cases e with
    | frame i k' msg' =>
        obtain ⟨rfl, rfl⟩ : k' = k ∧ msg' = msg := by simpa [frameFor] using hframe
        exact ⟨i, rfl⟩
    | _ => cases hframe
  have hword := isWord_of_handedOut h ((handedInv_of_run h).frame i k msg he)
  exact ⟨hword.length, hword.word, hcontent⟩

/-- The stream of a network subscription, in a run with fewer than 2^64 subscribes in which it is
not unsubscribed, however often it is detached and attached. A client that decodes the bytes written
for it, connection after connection, is left with no part of a frame. What it has decoded, followed
by what is still on its way, is all that was fanned out on the channel since the subscribe
returned, after some of the last messages fanned out while it was under way. -/
theorem decode_network_stream {tr : List (Event n)} {s : State n}
    (h : (machine n capacity hcap apiKey).RunIf NothingFails tr s)
    (hbound : s.broker.shared.nextSubscribe < 2 ^ 64)
    {pre post : List (MessageBroker.Event n)} {t : Tid n} {k x : Nat} {name : CString}
    (htr : brokerTrace tr = pre ++ .subscribed t k x name :: post)
    (hnot : ∀ t', .unsubscribeCall t' k ∉ brokerTrace tr)
    (hcontent : ∀ msg ∈ framesOf tr k, totalLen msg.content.strlen < 2 ^ 64) :
    (decode (writtenFor tr k)).2 = [] ∧
    ∃ early hand, early <:+ fannedOut pre name ∧ hand.length ≤ 1 ∧
      (∀ msg ∈ hand, ∃ i, carried (s.connection i) = some (k, msg)) ∧
      (decode (writtenFor tr k)).1
          ++ (hand ++ ((s.broker.shared.proxy x).inbox ++ stillComing s.broker x)).map decoded
        = (early ++ fannedOut post name).map decoded := by
  have hdecode : decode (writtenFor tr k) = ((framesOf tr k).map decoded, []) :=
    decode_frames _ fun msg hmsg =>
      sendable_of_frame (h.mono fun _ _ _ => trivial) hmsg (hcontent msg hmsg)
  obtain ⟨early, hand, hearly, hlength, hhand, hstream⟩ :=
    frames_of_subscription h hbound htr hnot
  refine ⟨by rw [hdecode], early, hand, hearly, hlength, hhand, ?_⟩
  rw [hdecode, ← hstream, ← List.map_append]

end

/-- The subscription that an event shows an unsubscribe of. -/
def unsubscribeCallOf : MessageBroker.Event 1 → Option Nat
  | .unsubscribeCall _ k => some k
  | _ => none

/-- A first client gets one message and detaches, and a second client attaches and gets the next
one. A third message is in the inbox. -/
theorem decode_network_stream_detachAndAttach :
    ∃ (tr : List (Event 1)) (s : State 1) (early hand : List Message),
      (machine 1 4 (by decide) none).RunIf NothingFails tr s ∧ early <:+ [] ∧ hand.length ≤ 1 ∧
      (s.broker.shared.proxy 0).inbox = [byteMessage 2 99] ∧
      (decode (writtenFor tr 0)).1
          ++ (hand ++ ([byteMessage 2 99] ++ stillComing s.broker 0)).map decoded
        = (early ++ [byteMessage 0 97, byteMessage 1 98, byteMessage 2 99]).map decoded := by
  let name : CString := .ofBuffer (Stdio.ascii "c")
  obtain ⟨tr, s, hrun, hp⟩ := Machine.runIf_of_exec (M := machine 1 4 (by decide) none)
    (K := NothingFails) detachAndAttach
    (fun tr s =>
      decide (brokerTrace tr = [.subscribeCall (.client 1) 1 name] ++
          .subscribed (.client 1) 0 0 name :: (brokerTrace tr).drop 2 ∧
        (brokerTrace tr).filterMap unsubscribeCallOf = [] ∧
        framesOf tr 0 = [byteMessage 0 97, byteMessage 1 98] ∧
        fannedOut ((brokerTrace tr).drop 2) name =
          [byteMessage 0 97, byteMessage 1 98, byteMessage 2 99]) &&
      decide (s.broker.shared.nextSubscribe = 1 ∧
        (s.broker.shared.proxy 0).inbox = [byteMessage 2 99]))
    (by decide +kernel)
  obtain ⟨htrace, hstate⟩ := Bool.and_eq_true_iff.mp hp
  obtain ⟨hsubscribed, hcalls, hframes, hfanouts⟩ := of_decide_eq_true htrace
  obtain ⟨hsubscribes, hinbox⟩ := of_decide_eq_true hstate
  have hnot : ∀ t', .unsubscribeCall t' 0 ∉ brokerTrace tr := by
    intro t' hmem
    have hcall : 0 ∈ (brokerTrace tr).filterMap unsubscribeCallOf :=
      List.mem_filterMap.mpr ⟨_, hmem, rfl⟩
    rw [hcalls] at hcall
    cases hcall
  have hcontent : ∀ msg ∈ framesOf tr 0, totalLen msg.content.strlen < 2 ^ 64 := by
    rw [hframes]
    decide +kernel
  obtain ⟨-, early, hand, hearly, hlength, -, hstream⟩ := decode_network_stream hrun
    (by rw [hsubscribes]; decide) hsubscribed hnot hcontent
  rw [hinbox, hfanouts] at hstream
  exact ⟨tr, s, early, hand, hrun, hearly, hlength, hinbox, hstream⟩

end Miez.Proofs.NetworkServer
