import Miez.Proofs.MessageBroker.Names
import Miez.Proofs.NetworkServer.Frames
import Miez.Proofs.NetworkServer.Inboxes

/-!
# `Miez.Proofs.NetworkServer.FrameBuffer`: the block of a frame is large enough

A subscription is made by a SUBSCRIBE command, and its channel is one word of at most 255 bytes
because `_client_handler` scans it with `%255s`. Any thread may publish, and the name of its
channel may be as long as it likes. But the broker hands a message out only to the subscriptions
with the name of the message (`channelName_of_got`). So a receiver prints a name of at most 255
bytes, and with two 64-bit numbers the header has at most 302 bytes (`frame_buffer_suffices`).
-/

set_option autoImplicit false

namespace Miez.Proofs.NetworkServer

open Miez.Lib
open Miez.NetworkServer
open Miez.Stdio (scanString isSpace)
open Miez.ThreadPool (Tid)
open Miez.MessageBroker (Message)
open Miez.Proofs.MessageBroker (channelName_of_got subscribeInv_of_run next_subscribeCall)

section
variable {n : Nat} {capacity : UInt64} {hcap : capacity ≠ 0} {apiKey : Option CString}

/-! ### The names of SUBSCRIBE -/

/-- A name that `%255s` can read. -/
structure IsWord (name : CString) : Prop where
  length : name.strlen ≤ 255
  word : ∀ b ∈ name.bytes, isSpace b = false

/-- What `%255s` reads is one word of at most 255 bytes. -/
theorem isWord_of_scanString {bs token rest : List UInt8}
    (h : scanString 255 bs = some (token, rest)) : IsWord (.ofBuffer token) := by
  simp only [scanString] at h
  split_ifs at h with htoken
  obtain ⟨htake, -⟩ := Prod.mk.inj (Option.some.inj h)
  have hprefix : List.Sublist (CString.ofBuffer token).bytes token := List.takeWhile_sublist _
  constructor
  · have hlen : token.length ≤ 255 := by
      rw [← htake, List.length_take]
      exact Nat.min_le_left _ _
    exact hprefix.length_le.trans hlen
  · intro b hb
    have hmem : b ∈ token := hprefix.subset hb
    rw [← htake] at hmem
    have hword := List.mem_takeWhile_imp (List.mem_of_mem_take hmem)
    simpa using hword

/-- The channel of a SUBSCRIBE command is one word. -/
theorem isWord_of_dispatch {authenticated : Bool} {buffer name : CString}
    (h : dispatch authenticated buffer = .subscribe name) : IsWord name := by
  unfold dispatch at h
  split at h
  · rename_i command channel contentLen hscan
    -- the channel is the second word of the buffer
    have hchannel : IsWord channel := by
      simp only [scanCommand, Option.bind_eq_some_iff, Option.map_eq_some_iff] at hscan
      obtain ⟨⟨first, rest⟩, -, ⟨second, rest'⟩, hsecond, heq⟩ := hscan
      simp only [Prod.mk.injEq] at heq
      rw [← heq.2.1]
      exact isWord_of_scanString hsecond
    split_ifs at h
    obtain rfl := Command.subscribe.inj h
    exact hchannel
  · split_ifs at h

/-- A command that leads to a subscribe has one word as its channel. -/
theorem isWord_of_handleCommand {ctx : Connection} {buffer : List UInt8} {name : CString}
    (h : (handleCommand apiKey ctx buffer).handler = .callSubscribe name) : IsWord name := by
  unfold handleCommand at h
  split at h
  · cases h
  · rename_i channelName hdispatch
    dsimp only at h
    split_ifs at h
    obtain rfl := HandlerPc.callSubscribe.inj h
    exact isWord_of_dispatch hdispatch
  · rename_i channelName contentLen hdispatch
    dsimp only [handlePublish] at h
    split_ifs at h
  · dsimp only at h
    split_ifs at h
  · dsimp only at h
    split_ifs at h
  · cases h
  · cases h

/-! ### The names of the subscriptions -/

/-- The channels of the subscribes that handlers are about to call and that were called. -/
structure WordInv (tr : List (Event n)) (s : State n) : Prop where
  call : ∀ i name, (s.connection i).handler = .callSubscribe name → IsWord name
  called : ∀ t id name, .subscribeCall t id name ∈ brokerTrace tr → IsWord name

/-- The next program point of a handler is the call of a subscribe only after a command. -/
theorem HandlerStep.isWord {i : Nat} {running : Bool} {sh : MessageBroker.Shared n}
    {registry : List Detached} {ctx ctx' : Connection} {move : Move} {o : Outcome n}
    (h : HandlerStep apiKey i running sh registry ctx move o)
    (ho : (∃ registry' e, o = .step ctx' registry' e) ∨ ∃ call, o = .call ctx' call)
    {name : CString} (hpc : ctx'.handler = .callSubscribe name) : IsWord name := by
  have hid : ∀ pc : UInt64 → HandlerPc, (∀ id, pc id ≠ .callSubscribe name) →
      withId sh ctx pc ≠ .callSubscribe name := by
    intro pc hne heq
    unfold withId at heq
    split at heq
    · exact hne _ heq
    · cases heq
  rcases ho with ⟨registry', e, rfl⟩ | ⟨call, rfl⟩
  · cases h with
    | command hpc' hread => exact isWord_of_handleCommand hpc
    | reply hpc' =>
        dsimp only at hpc
        split_ifs at hpc
    | createReceiver hpc' | createFailed hpc' =>
        dsimp only at hpc
        split_ifs at hpc
    | leave hpc' =>
        dsimp only at hpc
        split_ifs at hpc
    | getId hpc' => exact absurd hpc (hid _ fun id => HandlerPc.noConfusion)
    | addDetached hpc' => exact absurd hpc (hid _ fun id => HandlerPc.noConfusion)
    | addFailed hpc' => exact absurd hpc (hid _ fun id => HandlerPc.noConfusion)
    | _ => cases hpc
  · cases h <;> cases hpc

/-- A subscribe is called by a handler that was about to do so. -/
theorem subscribeCall_of_netStep {s s' : State n} {a : Action n} {e : Option (Event n)}
    (h : NetStep apiKey s a s' e) {t : Tid n} {id : UInt64} {name : CString}
    (he : e.bind brokerEvent = some (.subscribeCall t id name)) :
    ∃ i, (s.connection i).handler = .callSubscribe name := by
  cases h with
  | handler h => cases clientHandler_step rfl h <;> cases he
  | @handlerCall i move ctx call b e h hb =>
      rw [brokerEvent_callEvent] at he
      subst he
      obtain ⟨ha, -⟩ := next_subscribeCall hb
      obtain ⟨-, rfl⟩ : _ ∧ call = .callSubscribe name := by simpa using ha
      cases clientHandler_step rfl h with
      | callSubscribe hpc => exact ⟨i, hpc⟩
  | receiver h => cases subscriberReceiverThread_step h <;> cases he
  | @receiverCall i move ctx call b e h hb =>
      rw [brokerEvent_callEvent] at he
      subst he
      obtain ⟨ha, -⟩ := next_subscribeCall hb
      obtain ⟨-, rfl⟩ : _ ∧ call = .callSubscribe name := by simpa using ha
      cases subscriberReceiverThread_step h
  | freeUnsubscribe _ _ hb | freeFree _ _ hb | publish hb =>
      rw [brokerEvent_broker] at he
      subst he
      obtain ⟨ha, -⟩ := next_subscribeCall hb
      simp at ha
  | inside hinside hb | back hinside hb =>
      -- a step inside the broker is no call
      rw [brokerEvent_broker] at he
      subst he
      obtain ⟨rfl, hidle⟩ := next_subscribeCall hb
      simp [isInside, hidle] at hinside
  | accept | stop | freeStart | freeEnd => cases he

/-- `WordInv` holds in every state of a run. -/
theorem wordInv_of_run {tr : List (Event n)} {s : State n}
    (h : (machine n capacity hcap apiKey).Run tr s) : WordInv tr s := by
  refine h.induction (I := WordInv)
    ⟨fun i name hpc => (by cases hpc), fun t id name hmem => (by cases hmem)⟩ ?_
  intro tr s a s' e _ hinv _ hnext
  have hstep := next_netStep hnext
  constructor
  · intro i name hpc
    cases hstep.connectionStep i with
    | same hctx _ =>
        rw [hctx] at hpc
        exact hinv.call i name hpc
    | accept _ hctx _ =>
        rw [hctx] at hpc
        cases hpc
    | handler hmove _ => exact hmove.isWord (Or.inl ⟨_, _, rfl⟩) hpc
    | handlerCall hmove _ => exact hmove.isWord (Or.inr ⟨_, rfl⟩) hpc
    | receiver hmove _ =>
        generalize s'.connection i = ctx' at hmove hpc
        generalize s'.detachedSubscriptions = registry' at hmove
        cases hmove <;> exact hinv.call i name hpc
    | receiverCall hmove _ =>
        generalize s'.connection i = ctx' at hmove hpc
        cases hmove
        exact hinv.call i name hpc
    | handlerReturn hctx _ _ _ _ =>
        rw [hctx] at hpc
        unfold handlerReturn at hpc
        split at hpc <;> first | exact hinv.call i name hpc | cases hpc
    | receiverReturn hctx _ _ _ _ =>
        rw [hctx, (receiverReturn_fields (s.connection i) _).1] at hpc
        exact hinv.call i name hpc
  · intro t id name hmem
    rw [brokerTrace_append] at hmem
    rcases List.mem_append.mp hmem with hmem | hmem
    · exact hinv.called t id name hmem
    · obtain ⟨i, hpc⟩ := subscribeCall_of_netStep hstep (Option.mem_toList.mp hmem)
      exact hinv.call i name hpc

/-! ### The messages of the receivers -/

/-- The broker has handed the message out. -/
def HandedOut (tr : List (Event n)) (msg : Message) : Prop :=
  ∃ t k x, .got t k x (some msg) ∈ brokerTrace tr

/-- A message that was handed out stays so. -/
theorem HandedOut.append {tr : List (Event n)} {msg : Message} (h : HandedOut tr msg)
    (e : Option (Event n)) : HandedOut (tr ++ e.toList) msg := by
  obtain ⟨t, k, x, hmem⟩ := h
  refine ⟨t, k, x, ?_⟩
  rw [brokerTrace_append]
  exact List.mem_append_left _ hmem

/-- The messages in the hands of receivers and in frames were handed out. -/
structure HandedInv (tr : List (Event n)) (s : State n) : Prop where
  hand : ∀ i msg, inHand (s.connection i).receiver = some msg → HandedOut tr msg
  frame : ∀ i k msg, .frame i k msg ∈ tr → HandedOut tr msg

/-- A receiver writes the frame of the message in its hand. -/
theorem inHand_of_frame {s s' : State n} {i : Nat} {a : Action n} {e : Option (Event n)}
    (h : ConnectionStep apiKey s s' i a e) {k : Nat} {msg : Message}
    (he : e = some (.frame i k msg)) : inHand (s.connection i).receiver = some msg := by
  cases h with
  | same _ hne => exact absurd rfl (hne _ he)
  | accept => cases he
  | handler hmove _ =>
      subst he
      generalize s'.connection i = ctx' at hmove
      generalize s'.detachedSubscriptions = registry' at hmove
      cases hmove
  | receiver hmove _ =>
      subst he
      generalize s'.connection i = ctx' at hmove
      generalize s'.detachedSubscriptions = registry' at hmove
      cases hmove with
      | write hpc hk =>
          rw [hpc]
          rfl
  | @handlerCall _ _ e hstep _ | @receiverCall _ _ e hstep _ =>
      obtain ⟨y, -, hy⟩ := Option.map_eq_some_iff.mp he
      unfold callEvent at hy
      split at hy <;> cases hy
  | @handlerReturn _ e | @receiverReturn _ e => cases e <;> cases he

/-- `HandedInv` holds in every state of a run. -/
theorem handedInv_of_run {tr : List (Event n)} {s : State n}
    (h : (machine n capacity hcap apiKey).Run tr s) : HandedInv tr s := by
  refine h.induction (I := HandedInv)
    ⟨fun i msg hhand => (by cases hhand), fun i k msg hmem => (by cases hmem)⟩ ?_
  intro tr s a s' e _ hinv _ hnext
  have hstep := next_netStep hnext
  constructor
  · intro i msg hhand
    have hkeep : ∀ e : Option (Event n), inHand (s.connection i).receiver = some msg →
        HandedOut (tr ++ e.toList) msg := fun e hold => (hinv.hand i msg hold).append e
    cases hstep.connectionStep i with
    | same hctx _ =>
        rw [hctx] at hhand
        exact hkeep _ hhand
    | accept _ hctx _ =>
        rw [hctx] at hhand
        cases hhand
    | handler hmove _ => exact hkeep _ (hmove.inHand.1 _ _ _ msg rfl hhand)
    | handlerCall hmove _ => exact hkeep _ (hmove.inHand.2 _ _ msg rfl hhand)
    | receiver hmove _ =>
        refine hkeep _ ?_
        generalize s'.connection i = ctx' at hmove hhand
        generalize s'.detachedSubscriptions = registry' at hmove
        cases hmove with
        | malloc hpc =>
            rw [hpc]
            exact hhand
        | _ => cases hhand
    | receiverCall hmove _ =>
        generalize s'.connection i = ctx' at hmove hhand
        cases hmove
        cases hhand
    | handlerReturn hctx _ _ _ _ =>
        rw [hctx, handlerReturn_receiver] at hhand
        exact hkeep _ hhand
    | @receiverReturn b e hctx _ _ _ _ =>
        rw [hctx] at hhand
        unfold receiverReturn at hhand
        split at hhand
        · -- the receiver comes back with a message
          rename_i t k x m _ _
          obtain rfl := Option.some.inj hhand
          refine ⟨t, k, x, ?_⟩
          rw [brokerTrace_append, brokerEvent_broker]
          exact List.mem_append_right _ (List.mem_singleton_self _)
        · cases hhand
        · exact hkeep _ hhand
  · intro i k msg hmem
    rcases List.mem_append.mp hmem with hmem | hmem
    · exact (hinv.frame i k msg hmem).append e
    · have hhand := inHand_of_frame (hstep.connectionStep i) (Option.mem_toList.mp hmem)
      exact (hinv.hand i msg hhand).append e

/-- The channel of a message that was handed out is one word of at most 255 bytes, whoever
published it. -/
theorem isWord_of_handedOut {tr : List (Event n)} {s : State n}
    (h : (machine n capacity hcap apiKey).Run tr s) {msg : Message} (hmsg : HandedOut tr msg) :
    IsWord msg.channelName := by
  obtain ⟨t, k, x, hgot⟩ := hmsg
  have hbroker := brokerRun_of_run h
  obtain ⟨t', hsubscribed⟩ := channelName_of_got hbroker hgot
  obtain ⟨t₁, id, hcalled⟩ := (subscribeInv_of_run hbroker).subscribed t' k x _ hsubscribed
  exact (wordInv_of_run h).called t₁ id _ hcalled

/-! ### The numbers of a frame -/

/-- The sum of `total_write_len` does not overflow when it fits into an `int`. -/
theorem toInt_totalWriteLen {h c : Nat} (hlt : h + c + 1 < 2 ^ 31) :
    (totalWriteLen (.ofNat h) (.ofNat c)).toInt = h + c + 1 := by
  have hheader : (Int32.ofNat h).toInt64.toUInt64 = UInt64.ofNat h := by
    have hsame : (Int32.ofNat h).toInt64 = Int64.ofNat h := by
      rw [← Int64.toInt_inj, Int32.toInt_toInt64, Int32.toInt_ofNat_of_lt (by omega),
        Int64.toInt_ofNat_of_lt (by omega)]
    rw [hsame]
    rfl
  have hsum : (UInt64.ofNat h + UInt64.ofNat c + 1).toUInt32 = UInt32.ofNat (h + c + 1) := by
    rw [← UInt32.toNat_inj, UInt64.toNat_toUInt32]
    simp only [UInt64.toNat_add, UInt64.toNat_ofNat', UInt64.toNat_one, UInt32.toNat_ofNat']
    omega
  rw [totalWriteLen, hheader, hsum]
  show (Int32.ofNat (h + c + 1)).toInt = _
  rw [Int32.toInt_ofNat_of_lt hlt]
  push_cast
  rfl

/-- The numbers with which a receiver builds the frame of a message are right, and it writes
inside the block only. -/
structure FrameFits (msg : Message) : Prop where
  block : (headerText msg.id msg.channelName msg.content.strlen).length + msg.content.strlen + 1 ≤
    totalLen msg.content.strlen
  header : (headerText msg.id msg.channelName msg.content.strlen).length <
    totalLen msg.content.strlen
  total_len : (totalLenSize (.ofNat msg.content.strlen)).toNat = totalLen msg.content.strlen
  header_len : (headerLen msg).toInt =
    (headerText msg.id msg.channelName msg.content.strlen).length
  total_write_len : (totalWriteLen (headerLen msg) (.ofNat msg.content.strlen)).toInt =
    (headerText msg.id msg.channelName msg.content.strlen).length + msg.content.strlen + 1
  built : ∀ memory, buildFrame memory msg = some (frameBytes msg)

/-- A channel of one word and a content of less than 2^31 - 1024 bytes make a frame that fits. -/
theorem IsWord.frameFits {msg : Message} (h : IsWord msg.channelName)
    (hcontent : msg.content.strlen < 2 ^ 31 - 1024) : FrameFits msg := by
  have hblock : totalLen msg.content.strlen < 2 ^ 64 := by
    rw [totalLen]
    omega
  have hsend : Sendable msg := ⟨h.length, h.word, hblock⟩
  have hheader := hsend.length_headerText
  refine ⟨?_, ?_, ?_, ?_, ?_, hsend.buildFrame_eq⟩
  · rw [totalLen]
    omega
  · rw [totalLen]
    omega
  · rw [totalLen] at hblock ⊢
    simp only [totalLenSize, UInt64.toNat_add, UInt64.toNat_ofNat', UInt64.toNat_one]
    show ((512 + msg.content.strlen % 2 ^ 64) % 2 ^ 64 + 1) % 2 ^ 64 = _
    omega
  · exact Int32.toInt_ofNat_of_lt (by omega)
  · exact toInt_totalWriteLen (by omega)

/-- The message has been handed out, or a receiver holds it or has written its frame. -/
def Delivered (tr : List (Event n)) (s : State n) (msg : Message) : Prop :=
  HandedOut tr msg ∨ (∃ i, inHand (s.connection i).receiver = some msg) ∨
    ∃ i k, .frame i k msg ∈ tr

/-- The block of a frame is always large enough. In every run of the server, whoever published the
message, the header, the content and the newline fit into `total_len` bytes, `snprintf` does not
cut the header off, `total_write_len` is the sum without overflow, and no write goes outside the
block. -/
theorem frame_buffer_suffices {tr : List (Event n)} {s : State n}
    (h : (machine n capacity hcap apiKey).Run tr s) {msg : Message} (hmsg : Delivered tr s msg)
    (hcontent : msg.content.strlen < 2 ^ 31 - 1024) : FrameFits msg := by
  have hout : HandedOut tr msg := by
    rcases hmsg with hout | ⟨i, hhand⟩ | ⟨i, k, hframe⟩
    · exact hout
    · exact (handedInv_of_run h).hand i msg hhand
    · exact (handedInv_of_run h).frame i k msg hframe
  exact (isWord_of_handedOut h hout).frameFits hcontent

end

/-- A message that goes through the server fits into its block. -/
theorem frame_buffer_suffices_ab :
    ∃ tr s, (machine 1 4 (by decide) none).Run tr s ∧
      Delivered tr s (publishArg [97, 98]).message ∧
      (publishArg [97, 98]).message.content.strlen < 2 ^ 31 - 1024 ∧
      FrameFits (publishArg [97, 98]).message := by
  obtain ⟨tr, s, hrun, hp⟩ := Machine.run_of_exec (M := machine 1 4 (by decide) none)
    (publishAndReceive [97, 98]) (fun tr _ => decide
      (.frame 0 0 (publishArg [97, 98]).message ∈ tr)) (by decide +kernel)
  have hdelivered : Delivered tr s (publishArg [97, 98]).message :=
    Or.inr (Or.inr ⟨0, 0, of_decide_eq_true hp⟩)
  have hcontent : (publishArg [97, 98]).message.content.strlen < 2 ^ 31 - 1024 := by
    decide +kernel
  exact ⟨tr, s, hrun, hdelivered, hcontent, frame_buffer_suffices hrun hdelivered hcontent⟩

end Miez.Proofs.NetworkServer
