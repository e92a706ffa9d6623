import Miez.Proofs.NetworkServer.Session

/-!
# `Miez.Proofs.NetworkServer.Conversation`: every command gets one reply of its own

`conversation_conforms`: the replies of a connection are the answers to its commands, in their
order. The reply to a command is one of those that `Conversation.allows` lists for it after the
commands and replies before it, at most the last command has no reply yet, and nothing comes after
`BYE`.

The proof is about the monitor `session` alone. A command that has no reply yet is `Pending`: the
phase of the session then knows enough of the command to tell which replies may come.
-/

set_option autoImplicit false

namespace Miez.Proofs.NetworkServer

open Miez.Lib
open Miez.NetworkServer
open Miez.Stdio (ascii)

section
variable {apiKey : Option CString} {x y : Session} {c : Conversation} {buffer : List UInt8}

/-! ### A command without its reply -/

/-- What a client knows of a session. -/
def known (x : Session) (quit : Bool) : Conversation :=
  ⟨x.authenticated, x.subscription.isSome, quit⟩

/-- The server does not refuse the command at once. -/
def begins (c : Conversation) : Command → Bool
  | .subscribe _ | .attach _ => !c.subscribed
  | .publish _ contentLen => contentLen ≤ maxContentSize
  | .detach => c.subscribed
  | .auth _ | .quit | .error _ => false

/-- What the phase of a session says about the command that has no reply yet. -/
def Pending (apiKey : Option CString) (c : Conversation) (buffer : List UInt8) (x : Session) :
    Prop :=
  let command := dispatch c.authenticated (.ofBuffer buffer)
  match x.phase with
  | .ready | .closed => False
  | .running command' => command = command' ∧ begins c command = true ∧ c = known x false
  | .subscribing _ => (∃ name, command = .subscribe name) ∧ begins c command = true ∧
      c = known x false
  | .publishing _ => (∃ name len, command = .publish name len) ∧ begins c command = true ∧
      c = known x false
  | .counting _ => (∃ id, command = .attach id) ∧ begins c command = true ∧
      known x false = { c with subscribed := true, quit := false } ∧ c.quit = false
  | .answering r => (conversation apiKey).step c (buffer, r) = some (known x (r == .bye))

/-- A command leads to a phase that knows of it. -/
theorem pending_command (hc : c = known x false) :
    Pending apiKey c buffer (x.command apiKey buffer) := by
  subst hc
  unfold Session.command
  cases hcommand : dispatch x.authenticated (.ofBuffer buffer) with
  | auth key =>
      have hbye := handleAuth_ne_bye apiKey x.authenticated key
      simp [Pending, known, conversation, Conversation.step, Conversation.allows, Conversation.next,
        hcommand, hbye]
  | publish name len =>
      by_cases hlen : maxContentSize < len
      · simp [Pending, known, conversation, Conversation.step, Conversation.allows,
          Conversation.next, hcommand, hlen]
      · simp [Pending, known, begins, hcommand, hlen, UInt64.not_lt.mp hlen]
  | subscribe name | attach id | detach =>
      by_cases hsub : x.subscription.isSome
      · simp [Pending, known, begins, conversation, Conversation.step, Conversation.allows,
          Conversation.next, hcommand, hsub, isNumber]
      · simp [Pending, known, begins, conversation, Conversation.step, Conversation.allows,
          Conversation.next, hcommand, hsub, isNumber]
  | quit | error e =>
      simp [Pending, known, conversation, Conversation.step, Conversation.allows, Conversation.next,
        hcommand]

/-- A reply is the answer of the phase, or a refusal that it lists. -/
theorem answering_or_refusal {phase : Phase} {r : Reply} (h : phase.allows r = true) :
    phase = .answering r ∨ ∃ e ∈ phase.refusals, r = .err e := by
  unfold Phase.allows at h
  rcases Bool.or_eq_true_iff.mp h with h | h
  · exact Or.inl (eq_of_beq h)
  · obtain ⟨e, he, hr⟩ := List.any_eq_true.mp h
    exact Or.inr ⟨e, he, eq_of_beq hr⟩

/-- A reply that the conversation allows. -/
theorem step_of_allows {r : Reply} {command : Command}
    (hcommand : dispatch c.authenticated (.ofBuffer buffer) = command) (hquit : c.quit = false)
    (hallows : c.allows apiKey r command = true) :
    (conversation apiKey).step c (buffer, r) = some (c.next apiKey r command) := by
  simp [conversation, Conversation.step, hcommand, hquit, hallows]

/-- A command that has begun may be refused for the listed reasons, which leaves the conversation as
it is. -/
theorem refused_running {command : Command} {e : Error} (hbegins : begins c command = true)
    (he : e ∈ (Phase.running command).refusals) :
    c.allows apiKey (.err e) command = true ∧ c.next apiKey (.err e) command = c := by
  cases command with
  | publish name len =>
      have hlen : ¬ maxContentSize < len := by simpa [begins] using hbegins
      have hmem : e ∈ [Error.outOfMemory, .failedToReadContent, .failedToPublish] := he
      refine ⟨?_, rfl⟩
      fin_cases hmem <;> simp [Conversation.allows, hlen]
  | attach id =>
      have hsub : c.subscribed = false := by simpa [begins] using hbegins
      have hmem : e ∈ [Error.subscriptionNotFound] := he
      obtain rfl := List.mem_singleton.mp hmem
      refine ⟨by simp [Conversation.allows, hsub], ?_⟩
      simp [Conversation.next, isNumber]
  | detach =>
      have hsub : c.subscribed = true := hbegins
      have hmem : e ∈ [Error.failedToDetach] := he
      obtain rfl := List.mem_singleton.mp hmem
      refine ⟨by simp [Conversation.allows, hsub], ?_⟩
      simp [Conversation.next, isNumber]
  | subscribe | auth | quit | error => cases he

/-- A reply that the phase allows is one that the conversation allows. -/
theorem pending_reply (h : Pending apiKey c buffer x) {r : Reply} (hr : x.phase.allows r = true) :
    (conversation apiKey).step c (buffer, r) = some (known x (r == .bye)) := by
  unfold Pending at h
  rcases answering_or_refusal hr with hphase | ⟨e, he, rfl⟩
  · rw [hphase] at h
    exact h
  · have hrefused : ∀ command, dispatch c.authenticated (.ofBuffer buffer) = command →
        c = known x false →
        c.allows apiKey (.err e) command = true ∧ c.next apiKey (.err e) command = c →
        (conversation apiKey).step c (buffer, .err e) = some (known x (Reply.err e == .bye)) := by
      rintro command hcommand hc ⟨hallows, hnext⟩
      rw [step_of_allows hcommand (by rw [hc]; rfl) hallows, hnext, hc]
      rfl
    cases hphase : x.phase with
    | running command =>
        rw [hphase] at h he
        obtain ⟨hcommand, hbegins, hc⟩ := h
        exact hrefused command hcommand hc (refused_running (hcommand ▸ hbegins) he)
    | subscribing id =>
        rw [hphase] at h he
        obtain ⟨⟨name, hcommand⟩, hbegins, hc⟩ := h
        obtain rfl := List.mem_singleton.mp (show e ∈ [Error.failedToSubscribe] from he)
        rw [hcommand] at hbegins
        have hsub : c.subscribed = false := by simpa [begins] using hbegins
        refine hrefused _ hcommand hc ⟨by simp [Conversation.allows, hsub], ?_⟩
        simp [Conversation.next, isNumber]
    | publishing arg =>
        rw [hphase] at h he
        obtain ⟨⟨name, len, hcommand⟩, hbegins, hc⟩ := h
        obtain rfl := List.mem_singleton.mp (show e ∈ [Error.failedToPublish] from he)
        rw [hcommand] at hbegins
        have hlen : ¬ maxContentSize < len := by simpa [begins] using hbegins
        refine hrefused _ hcommand hc ?_
        simp [Conversation.allows, Conversation.next, hlen]
    | ready | closed | counting k | answering r' =>
        rw [hphase] at he
        cases he

/-- A client with a pending command has not quit. -/
theorem Pending.quit (h : Pending apiKey c buffer x) : c.quit = false := by
  unfold Pending at h
  cases hphase : x.phase with
  | ready | closed =>
      rw [hphase] at h
      cases h
  | running | subscribing | publishing =>
      rw [hphase] at h
      rw [h.2.2]
      rfl
  | counting =>
      rw [hphase] at h
      exact h.2.2.2
  | answering r =>
      rw [hphase] at h
      simp only [conversation, Conversation.step, Option.ite_none_right_eq_some] at h
      simpa using (Bool.and_eq_true_iff.mp h.1).1

/-- An event between a command and its reply leaves the command pending. -/
theorem pending_step (h : Pending apiKey c buffer x) {e : SessionEvent}
    (he : (session apiKey).step x e = some y) (hcommand : commandOf e = none)
    (hreply : replyOf e = none) :
    Pending apiKey c buffer y ∨ (y.phase = .closed ∧ c.quit = false) := by
  have hstep : Session.step apiKey x e = some y := he
  cases e with
  | command | reply => cases hcommand <;> cases hreply
  | subscribing id name =>
      simp only [Session.step, Option.ite_none_right_eq_some, Option.some.injEq] at hstep
      obtain ⟨hphase, rfl⟩ := hstep
      unfold Pending at h
      rw [hphase] at h
      exact Or.inl ⟨⟨name, h.1⟩, h.2⟩
  | subscribed k =>
      simp only [Session.step] at hstep
      split at hstep
      · rename_i id hphase
        obtain rfl := Option.some.inj hstep
        unfold Pending at h
        rw [hphase] at h
        obtain ⟨⟨name, hname⟩, hbegins, rfl⟩ := h
        rw [hname] at hbegins
        have hsub : x.subscription = none := by simpa [begins, known] using hbegins
        left
        show (conversation apiKey).step _ _ = _
        rw [step_of_allows hname rfl (by simp [Conversation.allows, known, hsub, isNumber])]
        simp [Conversation.next, known, isNumber]
      · cases hstep
  | publishing content arg =>
      simp only [Session.step, Option.ite_none_right_eq_some, Option.some.injEq] at hstep
      obtain ⟨⟨hphase, -⟩, rfl⟩ := hstep
      unfold Pending at h
      rw [hphase] at h
      exact Or.inl ⟨⟨_, _, h.1⟩, h.2⟩
  | published arg =>
      simp only [Session.step, Option.ite_none_right_eq_some, Option.some.injEq] at hstep
      obtain ⟨hphase, rfl⟩ := hstep
      unfold Pending at h
      rw [hphase] at h
      obtain ⟨⟨name, len, hname⟩, hbegins, rfl⟩ := h
      rw [hname] at hbegins
      have hlen : ¬ maxContentSize < len := by simpa [begins] using hbegins
      left
      show (conversation apiKey).step _ _ = _
      rw [step_of_allows hname rfl (by simp [Conversation.allows, hlen])]
      rfl
  | attached id k =>
      simp only [Session.step, Option.ite_none_right_eq_some, Option.some.injEq] at hstep
      obtain ⟨hphase, rfl⟩ := hstep
      unfold Pending at h
      rw [hphase] at h
      obtain ⟨hname, hbegins, hc⟩ := h
      refine Or.inl ⟨⟨id, hname⟩, hbegins, ?_, ?_⟩
      all_goals rw [hc]; rfl
  | counted k count =>
      simp only [Session.step, Option.ite_none_right_eq_some, Option.some.injEq] at hstep
      obtain ⟨hphase, rfl⟩ := hstep
      unfold Pending at h
      rw [hphase] at h
      obtain ⟨⟨id, hname⟩, hbegins, hc, hquit⟩ := h
      rw [hname] at hbegins
      have hsub : c.subscribed = false := by simpa [begins] using hbegins
      left
      show (conversation apiKey).step _ _ = some (known x false)
      rw [step_of_allows hname hquit (by simp [Conversation.allows, hsub, isNumber]), hc]
      simp [Conversation.next, isNumber, hquit]
  | linked id k =>
      simp only [Session.step, Option.ite_none_right_eq_some, Option.some.injEq] at hstep
      obtain ⟨⟨hphase, hsub⟩, rfl⟩ := hstep
      unfold Pending at h
      rw [hphase] at h
      obtain ⟨hname, hbegins, rfl⟩ := h
      left
      show (conversation apiKey).step _ _ = _
      rw [step_of_allows hname rfl (by simp [Conversation.allows, known, hsub, isNumber])]
      simp [Conversation.next, known, isNumber]
  | freed k =>
      simp only [Session.step, Option.ite_none_right_eq_some, Option.some.injEq] at hstep
      obtain ⟨-, rfl⟩ := hstep
      exact Or.inr ⟨rfl, h.quit⟩
  | frame k msg =>
      simp only [Session.step, Option.ite_none_right_eq_some, Option.some.injEq] at hstep
      obtain ⟨-, rfl⟩ := hstep
      exact Or.inl h

/-- Without a command that is pending, the other events leave the session alone or close it. -/
theorem unchanged_or_closed {e : SessionEvent} (hphase : x.phase = .ready ∨ x.phase = .closed)
    (he : (session apiKey).step x e = some y) (hcommand : commandOf e = none)
    (hreply : replyOf e = none) : y = x ∨ y.phase = .closed := by
  have hstep : Session.step apiKey x e = some y := he
  cases e with
  | command | reply => cases hcommand <;> cases hreply
  | freed k =>
      simp only [Session.step, Option.ite_none_right_eq_some, Option.some.injEq] at hstep
      exact Or.inr (by rw [← hstep.2])
  | frame k msg =>
      simp only [Session.step, Option.ite_none_right_eq_some, Option.some.injEq] at hstep
      exact Or.inl hstep.2.symm
  | _ => rcases hphase with hphase | hphase <;> simp [Session.step, hphase] at hstep

/-! ### The whole conversation -/

section
variable {cs : List (List UInt8)} {rs : List Reply}

/-- How far a conversation is. Every command but the last one has been answered, and the last one
too unless it is pending or the connection has been closed. -/
inductive Answered (apiKey : Option CString) (cs : List (List UInt8)) (rs : List Reply)
    (x : Session) (c : Conversation) : Prop where
  | ready (hphase : x.phase = .ready) (hlength : cs.length = rs.length) (hc : c = known x false)
  | pending (before : List (List UInt8)) (buffer : List UInt8) (hcommands : cs = before ++ [buffer])
      (hlength : before.length = rs.length) (hpending : Pending apiKey c buffer x)
  | closed (hphase : x.phase = .closed) (hle : rs.length ≤ cs.length)
      (hlt : cs.length ≤ rs.length + 1) (hquit : c.quit = true → cs.length = rs.length)

/-- How many commands have been answered. -/
theorem Answered.length (h : Answered apiKey cs rs x c) :
    rs.length ≤ cs.length ∧ cs.length ≤ rs.length + 1 ∧
      (c.quit = true → cs.length = rs.length) := by
  cases h with
  | ready hphase hlength hc => exact ⟨hlength.ge, by omega, fun _ => hlength⟩
  | pending before buffer hcommands hlength hpending =>
      rw [hcommands, List.length_append, List.length_singleton, hlength]
      refine ⟨Nat.le_succ _, le_rfl, fun hquit => ?_⟩
      rw [hpending.quit] at hquit
      cases hquit
  | closed hphase hle hlt hquit => exact ⟨hle, hlt, hquit⟩

/-- A last command without a reply. -/
theorem zip_last (h : cs.length = rs.length) (buffer : List UInt8) :
    (cs ++ [buffer]).zip rs = cs.zip rs := by
  have hzip : (cs ++ [buffer]).zip (rs ++ []) = cs.zip rs ++ [buffer].zip [] := List.zip_append h
  rwa [List.append_nil, List.zip_nil_right, List.append_nil] at hzip

/-- A command is read when the one before has been answered. -/
theorem Answered.command (h : Answered apiKey cs rs x c) (buffer : List UInt8)
    (hready : x.phase = .ready) :
    Answered apiKey (cs ++ [buffer]) rs (x.command apiKey buffer) c ∧
      (cs ++ [buffer]).zip rs = cs.zip rs := by
  cases h with
  | ready hphase hlength hc =>
      exact ⟨.pending cs buffer rfl hlength (pending_command hc), zip_last hlength buffer⟩
  | pending before buffer hcommands hlength hpending =>
      unfold Pending at hpending
      rw [hready] at hpending
      cases hpending
  | closed hphase =>
      rw [hphase] at hready
      cases hready

/-- A reply is the answer to the command that is pending. -/
theorem Answered.reply (h : Answered apiKey cs rs x c) {r : Reply}
    (hr : x.phase.allows r = true) :
    ∃ buffer, (conversation apiKey).step c (buffer, r) = some (known x (r == .bye)) ∧
      cs.zip (rs ++ [r]) = cs.zip rs ++ [(buffer, r)] ∧
      Answered apiKey cs (rs ++ [r]) { x with phase := if r = .bye then .closed else .ready }
        (known x (r == .bye)) := by
  cases h with
  | ready hphase | closed hphase =>
      rw [hphase] at hr
      rcases answering_or_refusal hr with h | ⟨e, he, -⟩
      · cases h
      · cases he
  | pending before buffer hcommands hlength hpending =>
      refine ⟨buffer, pending_reply hpending hr, ?_, ?_⟩
      · rw [hcommands, zip_last hlength, List.zip_append hlength]
        rfl
      · have hlength' : cs.length = (rs ++ [r]).length := by
          rw [hcommands, List.length_append, List.length_append, hlength]
          rfl
        by_cases hbye : r = .bye
        · rw [if_pos hbye]
          exact .closed rfl hlength'.ge (by omega) fun _ => hlength'
        · rw [if_neg hbye, beq_false_of_ne hbye]
          exact .ready rfl hlength' rfl

/-- The other events are about the pending command, or they leave the session alone or close it. -/
theorem Answered.other (h : Answered apiKey cs rs x c) {e : SessionEvent}
    (he : (session apiKey).step x e = some y) (hcommand : commandOf e = none)
    (hreply : replyOf e = none) : Answered apiKey cs rs y c := by
  have hclose : y.phase = .closed → (c.quit = true → cs.length = rs.length) →
      Answered apiKey cs rs y c :=
    fun hphase hquit => .closed hphase h.length.1 h.length.2.1 hquit
  have hidle : x.phase = .ready ∨ x.phase = .closed → y = x ∨ y.phase = .closed :=
    fun hphase => unchanged_or_closed hphase he hcommand hreply
  cases id h with
  | ready hphase | closed hphase =>
      rcases hidle (by simp [hphase]) with rfl | hy
      · exact h
      · exact hclose hy h.length.2.2
  | pending before buffer hcommands hlength hpending =>
      rcases pending_step hpending he hcommand hreply with hpending | ⟨hy, hquit⟩
      · exact .pending before buffer hcommands hlength hpending
      · exact hclose hy h.length.2.2

end

/-- The lists of a session after one more event. -/
theorem commands_append (es : List SessionEvent) (e : SessionEvent) :
    commands (es ++ [e]) = commands es ++ (commandOf e).toList ∧
      replies (es ++ [e]) = replies es ++ (replyOf e).toList := by
  unfold commands replies
  rw [List.filterMap_append, List.filterMap_append]
  cases e <;> exact ⟨rfl, rfl⟩

/-- What a session reads is a conversation. -/
theorem answered_of_session {es : List SessionEvent} {x : Session}
    (h : (session apiKey).run es = some x) :
    ∃ c, (conversation apiKey).run (exchanges es) = some c ∧
      Answered apiKey (commands es) (replies es) x c := by
  refine Monitor.run_induction (I := fun es x => ∃ c,
    (conversation apiKey).run (exchanges es) = some c ∧
      Answered apiKey (commands es) (replies es) x c) ?_ ?_ h
  · exact ⟨⟨false, false, false⟩, rfl, .ready rfl rfl rfl⟩
  · rintro es x e y - ⟨c, hc, hanswered⟩ hstep
    obtain ⟨hcommands, hreplies⟩ := commands_append es e
    unfold exchanges at hc ⊢
    rw [hcommands, hreplies]
    cases hcommand : commandOf e with
    | some buffer =>
        cases e with
        | command buffer' =>
            obtain rfl := Option.some.inj hcommand
            have hcommand : Session.step apiKey x (.command buffer') = some y := hstep
            simp only [Session.step, Option.ite_none_right_eq_some, Option.some.injEq] at hcommand
            obtain ⟨hready, rfl⟩ := hcommand
            obtain ⟨hanswered', hzip⟩ := hanswered.command buffer' hready
            show ∃ c, (conversation apiKey).run ((commands es ++ [buffer']).zip (replies es ++ [])) =
              some c ∧ Answered apiKey _ (replies es ++ []) _ c
            rw [List.append_nil, hzip]
            exact ⟨c, hc, hanswered'⟩
        | _ => cases hcommand
    | none =>
        cases hreply : replyOf e with
        | some r =>
            cases e with
            | reply r' =>
                obtain rfl := Option.some.inj hreply
                have hreply : Session.step apiKey x (.reply r') = some y := hstep
                simp only [Session.step, Option.ite_none_right_eq_some,
                  Option.some.injEq] at hreply
                obtain ⟨hallows, rfl⟩ := hreply
                obtain ⟨buffer, hstep', hzip, hanswered'⟩ := hanswered.reply hallows
                show ∃ c, (conversation apiKey).run ((commands es ++ []).zip (replies es ++ [r'])) =
                  some c ∧ Answered apiKey (commands es ++ []) _ _ c
                rw [List.append_nil, hzip]
                refine ⟨_, ?_, hanswered'⟩
                rw [Monitor.run_snoc, hc]
                exact hstep'
            | _ => cases hreply
        | none =>
            refine ⟨c, ?_, ?_⟩
            · simpa using hc
            · simpa using hanswered.other hstep hcommand hreply

/-! ### Runs -/

section
variable {n : Nat} {capacity : UInt64} {hcap : capacity ≠ 0}

/-- In every run of the server the replies of a connection are answers to its commands, in their
order, and at most the last command has none. When the server waits for the next command, the
client has a reply to each, and it knows from them whether it is authenticated and whether it is
subscribed. -/
theorem conversation_conforms {tr : List (Event n)} {s : State n}
    (h : (machine n capacity hcap apiKey).Run tr s) (i : Nat) :
    ∃ c, (conversation apiKey).run (exchanges (sessionTrace i tr)) = some c ∧
      (replies (sessionTrace i tr)).length ≤ (commands (sessionTrace i tr)).length ∧
      (commands (sessionTrace i tr)).length ≤ (replies (sessionTrace i tr)).length + 1 ∧
      (c.quit = true →
        (commands (sessionTrace i tr)).length = (replies (sessionTrace i tr)).length) ∧
      ∀ buffer, (s.connection i).handler = .read (.line buffer) →
        (commands (sessionTrace i tr)).length = (replies (sessionTrace i tr)).length ∧
        c = ⟨(s.connection i).authenticated, (s.connection i).subscription.isSome, false⟩ := by
  obtain ⟨x, hx, hinv⟩ := sessionInv_of_run h i
  obtain ⟨c, hc, hanswered⟩ := answered_of_session hx
  obtain ⟨hle, hlt, hquit⟩ := hanswered.length
  refine ⟨c, hc, hle, hlt, hquit, fun buffer hpc => ?_⟩
  have hphase : x.phase = .ready := by
    have hphase := hinv.phase
    unfold PhaseInv at hphase
    rw [hpc] at hphase
    exact hphase
  cases hanswered with
  | ready _ hlength hc =>
      have hsub := hinv.subscription
      rw [heldBy_eq (by simp [hpc]) (by simp [hpc])] at hsub
      rw [hc, known, hinv.authenticated, hsub]
      exact ⟨hlength, rfl⟩
  | pending before buffer hcommands hlength hpending =>
      unfold Pending at hpending
      rw [hphase] at hpending
      cases hpending
  | closed hclosed =>
      rw [hphase] at hclosed
      cases hclosed

end

/-- `conversation_conforms` on a client that has got three replies and may send the next command. -/
theorem conversation_conforms_publishAndReceive :
    ∃ tr s, (machine 1 4 (by decide) none).Run tr s ∧
      exchanges (sessionTrace 0 tr) =
        [(ascii "AUTH k", .ok), (ascii "SUBSCRIBE c", .okNumber 1), (ascii "PUBLISH c 2", .ok)] ∧
      ∃ c, (conversation none).run (exchanges (sessionTrace 0 tr)) = some c ∧
        (commands (sessionTrace 0 tr)).length = (replies (sessionTrace 0 tr)).length := by
  obtain ⟨tr, s, hrun, hp⟩ := Machine.run_of_exec (M := machine 1 4 (by decide) none)
    (publishAndReceive [97, 98] ++ handlerGo 2) (fun tr s => decide
      (exchanges (sessionTrace 0 tr) =
        [(ascii "AUTH k", .ok), (ascii "SUBSCRIBE c", .okNumber 1), (ascii "PUBLISH c 2", .ok)] ∧
        (s.connection 0).handler = .read (.line []))) (by decide +kernel)
  obtain ⟨hexchanges, hpc⟩ := of_decide_eq_true hp
  obtain ⟨c, hc, -, -, -, hready⟩ := conversation_conforms hrun 0
  exact ⟨tr, s, hrun, hexchanges, c, hc, (hready [] hpc).1⟩

end

end Miez.Proofs.NetworkServer
