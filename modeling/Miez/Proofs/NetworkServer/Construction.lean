import Miez.Proofs.Construction

/-!
# `Miez.Proofs.NetworkServer.Construction`: how the server is made, started, stopped and destroyed

`network_server_new` leaves the key, and the mutex of the detached subscriptions, behind on some of
its error paths. After it has succeeded, `network_server_free` releases all of the server, whatever
starts and stops there were and whichever of their calls failed. Only a second start without a stop
between costs a thread that is never joined.
-/

set_option autoImplicit false

namespace Miez.Proofs.Construction

open Miez.Lib
open Miez.Lib.Script
open Miez.Construction

/-- The block of the key. -/
def keyBlocks (apiKey : Bool) : Multiset ServerBlock :=
  if apiKey then {ServerBlock.apiKey} else 0

/-- The blocks of a server. -/
def serverBlocks (server : Server) : Multiset ServerBlock :=
  {ServerBlock.self} + keyBlocks server.apiKey + {ServerBlock.detachedMutex} +
    {ServerBlock.sslCtx} + (if server.serverFd then {ServerBlock.serverFd} else 0) +
    (if server.running then {ServerBlock.acceptThread} else 0) +
    Multiset.replicate server.lost .acceptThread

/-- The blocks of the detached subscriptions `i`, ..., `i + count - 1`. -/
def detachedBlocks (i count : Nat) : Multiset ServerBlock :=
  numbered (fun j => {ServerBlock.subscriptionName j} + {ServerBlock.subscription j} +
    {ServerBlock.detachedNode j}) i count

/-- A server after `network_server_new`. -/
def newServer (apiKey : Bool) : Server := ⟨apiKey, false, true, 0⟩

/-- The free of the key. -/
theorem freeApiKey_clears (apiKey : Bool) : Clears (freeApiKey apiKey) (keyBlocks apiKey) := by
  cases apiKey with
  | false => exact Clears.pure ()
  | true => exact clears_release ServerBlock.apiKey

/-- The close of the descriptor. -/
theorem closeServerFd_clears (serverFd : Bool) :
    Clears (closeServerFd serverFd) (if serverFd then {ServerBlock.serverFd} else 0) := by
  cases serverFd with
  | false => exact Clears.pure ()
  | true => exact clears_release ServerBlock.serverFd

/-- `_create_ssl_context` is all or nothing. -/
theorem createSslContext_allOrNothing : AllOrNothing createSslContext {.sslCtx} := by
  have hundo : ∀ blocks : Multiset ServerBlock,
      Safe (release ServerBlock.sslCtx >>= fun _ => (pure (-1) : Script ServerBlock Int))
        ({ServerBlock.sslCtx} + 0) fun code held =>
          (code = 0 ∧ held = blocks) ∨ (code ≠ 0 ∧ held = 0) :=
    fun _ => Safe.undo (clears_release _) (add_zero _) (by decide)
  unfold createSslContext
  refine Safe.acquire_if ?_ fun ctx hctx => Safe.pure (Or.inr ⟨by decide, rfl⟩)
  refine Safe.call fun certificate => ?_
  split_ifs
  · exact hundo _
  · refine Safe.call fun privateKey => ?_
    split_ifs
    · exact hundo _
    · refine Safe.call fun check => ?_
      split_ifs
      · exact hundo _
      · exact Safe.pure (Or.inl ⟨rfl, add_zero _⟩)

/-- `network_server_start` keeps the blocks that belong to the server. -/
theorem networkServerStart_safe (server : Server)
    (hfd : server.running = true → server.serverFd = true) :
    Safe (networkServerStart server) (serverBlocks server) fun server' held =>
      held = serverBlocks server' ∧ (server'.running = true → server'.serverFd = true) ∧
        (server.running = false → server'.lost = server.lost) := by
  unfold networkServerStart
  by_cases hopen : server.serverFd = false
  · rw [if_pos hopen]
    exact Safe.pure ⟨rfl, hfd, fun _ => rfl⟩
  · rw [if_neg hopen]
    have hopen : server.serverFd = true := by simpa using hopen
    refine Safe.use (by simp [serverBlocks, hopen]) ?_
    refine Safe.call fun listen => ?_
    by_cases hlisten : listen = 0
    · rw [if_neg (not_not.mpr hlisten)]
      refine Safe.acquire_if ?_ fun code hcode => ?_
      · refine Safe.pure ⟨?_, fun _ => hopen, fun hstopped => by simp [hstopped]⟩
        cases hrunning : server.running with
        | false =>
            simp only [serverBlocks, hrunning, hopen, if_true, Bool.false_eq_true, if_false]
            abel
        | true =>
            simp only [serverBlocks, hrunning, hopen, if_true, Multiset.replicate_succ,
              ← Multiset.singleton_add]
            abel
      · refine Safe.pure ⟨?_, fun h => (by cases h), fun hstopped => by simp [hstopped]⟩
        cases hrunning : server.running with
        | false =>
            simp only [serverBlocks, hrunning, hopen, if_true, Bool.false_eq_true, if_false]
        | true =>
            simp only [serverBlocks, hrunning, hopen, if_true, Bool.false_eq_true, if_false,
              Multiset.replicate_succ, ← Multiset.singleton_add]
            abel
    · rw [if_pos hlisten]
      exact Safe.pure ⟨rfl, hfd, fun _ => rfl⟩

/-- `network_server_stop` joins the accept thread and closes the descriptor. -/
theorem networkServerStop_safe (server : Server)
    (hfd : server.running = true → server.serverFd = true) (frame : Multiset ServerBlock) :
    Safe (networkServerStop server) (serverBlocks server + frame) fun server' held =>
      held = serverBlocks server' + frame ∧ server'.running = false ∧
        server'.lost = server.lost ∧ server'.apiKey = server.apiKey := by
  unfold networkServerStop
  by_cases hrunning : server.running = false
  · rw [if_pos hrunning]
    exact Safe.pure ⟨rfl, hrunning, rfl, rfl⟩
  · rw [if_neg hrunning]
    have hrunning : server.running = true := by simpa using hrunning
    have hopen := hfd hrunning
    refine Safe.use (by simp [serverBlocks, hopen]) ?_
    refine Safe.release (k := {.acceptThread} + (serverBlocks { server with
      running := false, serverFd := false } + frame)) ?_ ?_
    · simp only [serverBlocks, hrunning, hopen, if_true, Bool.false_eq_true, if_false]
      abel
    · refine Safe.release rfl ?_
      exact Safe.pure ⟨rfl, rfl, rfl, rfl⟩

/-- The loop of `network_server_free` releases the nodes and the subscriptions in them. -/
theorem freeDetached_clears (i count : Nat) :
    Clears (freeDetached i count) (detachedBlocks i count) := by
  induction count generalizing i with
  | zero => exact Clears.pure ()
  | succ count ih =>
      unfold freeDetached
      refine ((clears_releaseAll _).seq (ih (i + 1))).congr ?_
      rw [detachedBlocks, detachedBlocks, numbered_succ]
      simp only [coe_cons, Multiset.coe_nil]
      abel

/-- `network_server_free` stops a server that runs and releases it with the subscriptions that are
still detached. Only threads that were lost before are left. -/
theorem networkServerFree_safe (server : Server)
    (hfd : server.running = true → server.serverFd = true) (detached : Nat) :
    Safe (networkServerFree server detached) (serverBlocks server + detachedBlocks 0 detached)
      fun code held => code = 0 ∧ held = Multiset.replicate server.lost .acceptThread := by
  unfold networkServerFree
  refine (networkServerStop_safe server hfd _).bind ?_
  rintro server' held ⟨hheld, hstopped, hlost, -⟩
  rw [hheld, ← hlost]
  refine Safe.clear (freeDetached_clears 0 detached) (k := serverBlocks server') (add_comm _ _)
    fun _ => ?_
  refine Safe.release (k := (if server'.serverFd then {ServerBlock.serverFd} else 0) +
    ({.sslCtx} + (keyBlocks server'.apiKey + ({.self} +
      Multiset.replicate server'.lost .acceptThread)))) ?_ ?_
  · simp only [serverBlocks, hstopped, Bool.false_eq_true, if_false]
    abel
  · refine Safe.clear (closeServerFd_clears _) rfl fun _ => ?_
    refine Safe.release rfl ?_
    refine Safe.clear (freeApiKey_clears _) rfl fun _ => ?_
    exact Safe.release rfl (Safe.pure ⟨rfl, rfl⟩)

/-- Between two starts there is a stop. `started` tells whether the last call was a start. -/
def startsApart : Bool → List ServerCall → Bool
  | _, [] => true
  | started, .start :: rest => !started && startsApart true rest
  | _, .stop :: rest => startsApart false rest

/-- The calls on a server keep the blocks that belong to it. When there is a stop between two
starts, no thread is lost. -/
theorem serverCalls_safe (calls : List ServerCall) (server : Server)
    (hfd : server.running = true → server.serverFd = true) :
    Safe (serverCalls calls server) (serverBlocks server) fun server' held =>
      held = serverBlocks server' ∧ (server'.running = true → server'.serverFd = true) ∧
        ∀ started, (server.running = true → started = true) → startsApart started calls = true →
          server'.lost = server.lost := by
  induction calls generalizing server with
  | nil => exact Safe.pure ⟨rfl, hfd, fun _ _ _ => rfl⟩
  | cons c rest ih =>
      cases c with
      | start =>
          unfold serverCalls
          refine (networkServerStart_safe server hfd).bind ?_
          rintro server₁ held ⟨hheld, hfd₁, hlost₁⟩
          rw [hheld]
          refine (ih server₁ hfd₁).mono ?_
          rintro server₂ held' ⟨hheld', hfd₂, hlost₂⟩
          refine ⟨hheld', hfd₂, fun started hstarted happart => ?_⟩
          -- the call before was no start, so the server does not run
          have hboth : started = false ∧ startsApart true rest = true := by
            simpa [startsApart] using happart
          have hstopped : server.running = false := by
            cases hrunning : server.running with
            | false => rfl
            | true => rw [hstarted hrunning] at hboth; cases hboth.1
          exact (hlost₂ true (fun _ => rfl) hboth.2).trans (hlost₁ hstopped)
      | stop =>
          unfold serverCalls
          have hstop := networkServerStop_safe server hfd 0
          rw [add_zero] at hstop
          refine hstop.bind ?_
          rintro server₁ held ⟨hheld, hstopped, hlost₁, -⟩
          rw [hheld, add_zero]
          refine (ih server₁ fun h => (by rw [hstopped] at h; cases h)).mono ?_
          rintro server₂ held' ⟨hheld', hfd₂, hlost₂⟩
          refine ⟨hheld', hfd₂, fun started _ happart => ?_⟩
          rw [← hlost₁]
          refine hlost₂ false (fun h => ?_) happart
          rw [hstopped] at h
          cases h

/-- A server that has been made is released as a whole: whatever calls of `network_server_start` and
`network_server_stop` there are, with a stop between two starts, and whichever calls inside them
fail, after `network_server_free` nothing is left, and nothing was released or closed twice. -/
theorem server_released (apiKey : Bool) (calls : List ServerCall)
    (hcalls : startsApart false calls = true) (detached : Nat) :
    Safe (serverCalls calls (newServer apiKey) >>= fun server => networkServerFree server detached)
      (serverBlocks (newServer apiKey) + detachedBlocks 0 detached)
      fun code held => code = 0 ∧ held = 0 := by
  have hrun := (serverCalls_safe calls (newServer apiKey) fun h => (by cases h)).frame
    (detachedBlocks 0 detached)
  refine hrun.bind ?_
  rintro server held ⟨own, hheld, hown, hfd, hlost⟩
  rw [hheld, hown]
  refine (networkServerFree_safe server hfd detached).mono ?_
  rintro code held' ⟨hcode, hheld'⟩
  rw [hheld', hlost false (fun h => (by cases h)) hcalls]
  exact ⟨hcode, rfl⟩

/-- A start, a stop, and a start on the closed descriptor. -/
theorem server_released_restart :
    Safe (serverCalls [.start, .stop, .start] (newServer true) >>= fun server =>
      networkServerFree server 2) (serverBlocks (newServer true) + detachedBlocks 0 2)
      fun code held => code = 0 ∧ held = 0 :=
  server_released true [.start, .stop, .start] rfl 2

/-- `network_server_new` makes the whole server, or it fails. Then it leaves nothing when the
structure, the key or the mutex could not be made; it leaves the key when there is no TLS context,
and the key and the mutex, which is not destroyed, when there is no socket or no address. -/
theorem networkServerNew_leaves (apiKey : Bool) :
    Safe (networkServerNew apiKey) 0 fun code held =>
      (code = 0 ∧ held = serverBlocks (newServer apiKey)) ∨
        (code ≠ 0 ∧ (held = 0 ∨ held = keyBlocks apiKey ∨
          held = keyBlocks apiKey + {.detachedMutex})) := by
  have hkey : AllOrNothing (copyApiKey apiKey) (keyBlocks apiKey) := by
    cases apiKey with
    | false => exact Safe.pure (Or.inl ⟨rfl, rfl⟩)
    | true =>
        intro codes
        refine ⟨codes 0, _, _, rfl, ?_⟩
        by_cases hcode : codes 0 = 0
        · exact Or.inl ⟨hcode, if_pos hcode⟩
        · exact Or.inr ⟨hcode, if_neg hcode⟩
  unfold networkServerNew
  refine Safe.acquire_if ?_ fun self hself => Safe.pure (Or.inr ⟨by decide, Or.inl rfl⟩)
  refine Safe.make_if hkey ?_ fun key hkey => ?_
  swap
  · refine Safe.clear (clears_release _) (k := 0) rfl fun _ => ?_
    exact Safe.pure (Or.inr ⟨by decide, Or.inl rfl⟩)
  refine Safe.acquire_if ?_ fun code hcode => ?_
  swap
  · refine Safe.clear (freeApiKey_clears apiKey) rfl fun _ => ?_
    refine Safe.clear (clears_release _) (k := 0) rfl fun _ => ?_
    exact Safe.pure (Or.inr ⟨by decide, Or.inl rfl⟩)
  refine Safe.make_if createSslContext_allOrNothing ?_ fun ctx hctx => ?_
  swap
  · refine Safe.clear (clears_releaseAll _) (k := keyBlocks apiKey) ?_ fun _ => ?_
    · simp only [coe_cons, Multiset.coe_nil]
      abel
    · exact Safe.pure (Or.inr ⟨by decide, Or.inr (Or.inl rfl)⟩)
  refine Safe.acquire_if ?_ fun fd hfd => ?_
  swap
  · refine Safe.clear (clears_releaseAll _) (k := keyBlocks apiKey + {.detachedMutex}) ?_
      fun _ => ?_
    · simp only [coe_cons, Multiset.coe_nil]
      abel
    · exact Safe.pure (Or.inr ⟨by decide, Or.inr (Or.inr rfl)⟩)
  refine Safe.call fun bind => ?_
  by_cases hbind : bind = 0
  · rw [if_neg (not_not.mpr hbind)]
    refine Safe.pure (Or.inl ⟨rfl, ?_⟩)
    simp only [serverBlocks, newServer, if_true, Bool.false_eq_true, if_false,
      Multiset.replicate_zero]
    abel
  · rw [if_pos hbind]
    refine Safe.clear (clears_releaseAll _) (k := keyBlocks apiKey + {.detachedMutex}) ?_
      fun _ => ?_
    · simp only [coe_cons, Multiset.coe_nil]
      abel
    · exact Safe.pure (Or.inr ⟨by decide, Or.inr (Or.inr rfl)⟩)

end Miez.Proofs.Construction
