import Miez.NetworkServer.Session
import Miez.Proofs.NetworkServer.Authentication
import Miez.Proofs.NetworkServer.Refused
import Miez.Proofs.ThreadPool.Wait

/-!
# `Miez.Proofs.NetworkServer.Session`: every connection follows the protocol

`session_conforms`: in every run of the server, with any number of connections and threads in any
interleaving and with any failures, the monitor `session` allows the events of every connection.

`SessionInv` relates the session to the connection. The session knows the same subscription as
`heldBy`, and its phase is told by the program point of the handler and, while the handler is
inside the broker, by that of its call. `SessionEffect` says what a step inside the broker does to
the call of one thread, and the other threads leave the relation alone.
-/

set_option autoImplicit false

namespace Miez.Proofs.NetworkServer

open Miez.Lib
open Miez.NetworkServer
open Miez.ThreadPool (Tid)
open Miez.MessageBroker (PublisherTaskArg)
open Miez.Proofs

section
variable {n : Nat}

/-! ### What a step inside the broker is for the session of its thread -/

/-- The argument of the task that a client submits. -/
def poolArg {τ : Type} : ThreadPool.ClientPc τ → Option τ
  | .submit (.loadOff arg) | .submit (.malloc arg) | .submit (.enqueue arg) => some arg
  | .submit (.lock task) | .submit (.signal task) | .submit (.unlock task) => some task.arg
  | _ => none

/-- The publish that a client is in. -/
def publishOf (b : MessageBroker.State n) (c : Nat) : Option PublisherTaskArg :=
  match b.pc (.client c) with
  | .publish arg => some arg
  | .inPool => poolArg (b.pool.client c)
  | _ => none

/-- The event is a call or an answer that a session knows. -/
def isAnswer : MessageBroker.Event n → Bool
  | .subscribeCall _ _ _ | .subscribed _ _ _ _ | .pool (.submitted _ _) | .pending _ _ _
  | .freed _ _ => true
  | _ => false

/-- What a step of the client `c` inside the broker is for its session. -/
inductive SessionEffect (c : Nat) (b b' : MessageBroker.State n) :
    Option (MessageBroker.Event n) → Prop where
  | subscribing (id : UInt64) (name : CString) (hpc : b.pc (.client c) = .idle)
      (hpc' : b'.pc (.client c) = .subscribe name id (.getChannel .lock)) :
      SessionEffect c b b' (some (.subscribeCall (.client c) id name))
  | subscribed (id : UInt64) (name : CString) (x : Nat)
      (hpc : b.pc (.client c) = .subscribe name id (.newSubscription x))
      (hpc' : b'.pc (.client c) = .idle)
      (hshared : b'.shared = b.shared.newSubscription id name x) :
      SessionEffect c b b' (some (.subscribed (.client c) b.shared.nextSubscription x name))
  | published (task : ThreadPool.PoolTask PublisherTaskArg)
      (harg : publishOf b c = some task.arg) (hpc' : b'.pc (.client c) = .idle) :
      SessionEffect c b b' (some (.pool (.submitted c task)))
  | counted (k count : Nat) (hpc : callOf (b.pc (.client c)) = .pendingCount k)
      (hpc' : b'.pc (.client c) = .idle) :
      SessionEffect c b b' (some (.pending (.client c) k count))
  | freed (k : Nat) (hpc : b.pc (.client c) = .free k) (hpc' : b'.pc (.client c) = .idle) :
      SessionEffect c b b' (some (.freed (.client c) k))
  | quiet {e : Option (MessageBroker.Event n)} (he : ∀ y, e = some y → isAnswer y = false)
      (hsubscribe : ∀ name id g, b.pc (.client c) = .subscribe name id g →
        b'.pc (.client c) = .idle ∨ ∃ g', b'.pc (.client c) = .subscribe name id g')
      (hpublish : ∀ arg, publishOf b c = some arg →
        b'.pc (.client c) = .idle ∨ publishOf b' c = some arg) : SessionEffect c b b' e

/-- No event. -/
theorem isAnswer_none : ∀ y, (none : Option (MessageBroker.Event n)) = some y → isAnswer y = false :=
  fun _ h => (by cases h)

/-- An event that is no answer. -/
theorem isAnswer_some {y : MessageBroker.Event n} (h : isAnswer y = false) :
    ∀ y', some y = some y' → isAnswer y' = false := by
  intro y' hy
  obtain rfl := Option.some.inj hy
  exact h

/-- The other events are about no session. -/
theorem ofBroker_eq_none {e : Option (MessageBroker.Event n)}
    (h : ∀ y, e = some y → isAnswer y = false) (t : Tid n) : e.bind (ofBroker t) = none := by
  cases e with
  | none => rfl
  | some y =>
      have hy := h y rfl
      cases y with
      | subscribeCall | subscribed | pending | freed => cases hy
      | pool e =>
          cases e with
          | submitted => cases hy
          | _ => rfl
      | _ => rfl

/-- A step of a client in `thread_pool_submit` keeps its task, and the return with 0 shows it. -/
theorem clientFunction_poolArg {τ : Type} {c : Nat} {exited : Fin n → Bool}
    {sh sh' : ThreadPool.Shared n τ} {pc pc' : ThreadPool.ClientPc τ}
    {move : ThreadPool.ClientMove n τ} {e : Option (ThreadPool.Event n τ)}
    (h : ThreadPool.clientFunction c exited sh pc move = some (sh', pc', e)) :
    (∀ c' task, e = some (.submitted c' task) →
      c' = c ∧ poolArg pc = some task.arg ∧ pc' = .idle) ∧
    (∀ arg, poolArg pc = some arg → pc' = .idle ∨ poolArg pc' = some arg) ∧
    (∀ arg, move = .callSubmit arg → poolArg pc' = some arg) := by
  cases pc with
  | idle => cases move <;> grind [ThreadPool.clientFunction, poolArg]
  | submit pc =>
      cases pc <;> cases move <;>
        grind [ThreadPool.clientFunction, ThreadPool.threadPoolSubmit, ThreadPool.Shared.lock,
          ThreadPool.Shared.signalNewTask, poolArg]
  | wait pc =>
      cases pc <;> cases move <;>
        grind [ThreadPool.clientFunction, ThreadPool.threadPoolWait, ThreadPool.Shared.lock, poolArg]
  | shutdown pc =>
      cases pc <;> cases move <;>
        grind [ThreadPool.clientFunction, ThreadPool.threadPoolShutdown, ThreadPool.Shared.lock,
          poolArg]

/-- A step of a client in the pool. -/
theorem poolStep_sessionEffect {b b' : MessageBroker.State n} {c : Nat} {pc : MessageBroker.Pc}
    {pa : ThreadPool.Action n PublisherTaskArg} {pool : ThreadPool.State n PublisherTaskArg}
    {e : Option (ThreadPool.Event n PublisherTaskArg)}
    (h : MessageBroker.PoolStep b pa pool (.client c) pc e)
    (hb' : b' = ⟨pool, b.shared, Function.update b.pc (.client c) pc, b.faulted⟩) :
    SessionEffect c b b' (e.map .pool) := by
  have hpc' : b'.pc (.client c) = pc := by
    rw [hb']
    exact Function.update_self ..
  cases h with
  | @client c move sh pc₁ e pc hf hpc =>
      obtain ⟨hsubmitted, hkeep, hcall⟩ := clientFunction_poolArg hf
      have hpool : b'.pool.client c = pc₁ := by
        rw [hb']
        exact Function.update_self ..
      by_cases hsub : ∃ c' task, e = some (.submitted c' task)
      · obtain ⟨c', task, rfl⟩ := hsub
        obtain ⟨rfl, harg, rfl⟩ := hsubmitted c' task rfl
        rcases hpc with ⟨arg, -, rfl, -⟩ | ⟨-, rfl, -⟩ | ⟨hin, rfl⟩
        · cases hcall arg rfl
        · generalize b.pool.client c' = pc₂ at hf harg
          cases pc₂ with
          | submit pc₂ => cases pc₂ <;> cases hf
          | _ => cases harg
        · refine .published task ?_ hpc'
          rw [publishOf, hin]
          exact harg
      · have hquiet : ∀ y, e.map MessageBroker.Event.pool = some y → isAnswer y = false := by
          cases e with
          | none => exact isAnswer_none
          | some e =>
              cases e with
              | submitted c' task => exact absurd ⟨c', task, rfl⟩ hsub
              | _ => exact isAnswer_some rfl
        refine .quiet hquiet ?_ ?_
        · intro name id g hg
          rcases hpc with ⟨arg, hpc, -⟩ | ⟨hpc, -⟩ | ⟨hpc, -⟩ <;>
          · rw [hpc] at hg
            cases hg
        · intro arg harg
          rcases hpc with ⟨arg', hpc, rfl, rfl⟩ | ⟨hpc, -, -⟩ | ⟨hpc, rfl⟩
          · rw [publishOf, hpc] at harg
            obtain rfl := Option.some.inj harg
            right
            rw [publishOf, hpc']
            show poolArg (b'.pool.client c) = some arg'
            rw [hpool]
            exact hcall arg' rfl
          · rw [publishOf, hpc] at harg
            cases harg
          · rw [publishOf, hpc] at harg
            rcases hkeep arg harg with rfl | hsame
            · exact Or.inl hpc'
            · right
              have hne : pc₁ ≠ .idle := by
                rintro rfl
                cases hsame
              rw [publishOf, hpc', if_neg hne]
              show poolArg (b'.pool.client c) = some arg
              rw [hpool]
              exact hsame

/-- A step inside the broker, for the session of its client. -/
theorem next_sessionEffect {b b' : MessageBroker.State n} {a : MessageBroker.Action n}
    {e : Option (MessageBroker.Event n)} {c : Nat}
    (h : MessageBroker.next b a = some (b', e)) (hactor : actor a = .client c) :
    SessionEffect c b b' e := by
  rcases MessageBroker.next_cases h with ⟨pa, pool, t, pc, e', hpa, hstep, rfl, -, -, hb'⟩ |
    ⟨t, move, sh, pc, rfl, hf, hb'⟩ | ⟨t, rfl, hb'⟩
  · have ht : actor a = t := by
      cases hstep with
      | dispatcher hidle hf => exact (actor_of_poolAction hpa).1 _ rfl
      | client hf hpc => exact (actor_of_poolAction hpa).2 _ _ rfl
    obtain rfl : t = .client c := ht.symm.trans hactor
    exact poolStep_sessionEffect hstep hb'
  · obtain rfl : t = .client c := hactor
    have hpc' : b'.pc (.client c) = pc := by
      rw [hb']
      exact Function.update_self ..
    have hshared : b'.shared = sh := by rw [hb']
    -- A step that leaves a subscribe where it is, or that is in none, and that is in no publish.
    have hquiet : ∀ {e : Option (MessageBroker.Event n)},
        (∀ y, e = some y → isAnswer y = false) →
        (∀ name id g, b.pc (.client c) = .subscribe name id g →
          pc = .idle ∨ ∃ g', pc = .subscribe name id g') →
        (∀ arg, publishOf b c = some arg → pc = .idle) → SessionEffect c b b' e := by
      intro e he hsubscribe hpublish
      refine .quiet he ?_ fun arg harg => Or.inl (hpc'.trans (hpublish arg harg))
      rw [hpc']
      exact hsubscribe
    generalize hold : b.pc (.client c) = pc₀ at hf hquiet
    have hnone : (∀ arg, pc₀ ≠ .publish arg) → pc₀ ≠ .inPool →
        ∀ arg, publishOf b c = some arg → pc = .idle := by
      intro h₁ h₂ arg harg
      unfold publishOf at harg
      rw [hold] at harg
      split at harg
      · exact absurd rfl (h₁ _)
      · exact absurd rfl h₂
      · cases harg
    rcases MessageBroker.threadFunction_cases hf with hstep | ⟨hstep, -⟩
    · cases hstep with
      | callSubscribe c' hc name =>
          obtain rfl : c = c' := Tid.client.inj hc
          exact .subscribing _ name hold hpc'
      | newSubscription x => exact .subscribed _ _ x hold hpc' hshared
      | pendingRead hret =>
          rcases hret with ⟨rfl, rfl⟩ | ⟨rfl, count, rfl⟩
          · exact hquiet isAnswer_none (fun _ _ _ h => (by cases h)) (hnone (by simp) (by simp))
          · exact .counted _ count (by rw [hold]; rfl) hpc'
      | release k => exact .freed k hold hpc'
      | subscribeMore hg =>
          refine hquiet isAnswer_none ?_ (hnone (by simp) (by simp))
          intro name id g hpc
          cases hpc
          exact Or.inr ⟨_, rfl⟩
      | subscribeFound hg =>
          refine hquiet isAnswer_none ?_ (hnone (by simp) (by simp))
          intro name id g hpc
          cases hpc
          exact Or.inr ⟨_, rfl⟩
      | newProxy ch | subscribeLock ch x | insertLast ch x | subscribeUnlock ch x =>
          refine hquiet isAnswer_none ?_ (hnone (by simp) (by simp))
          intro name id g hpc
          cases hpc
          exact Or.inr ⟨_, rfl⟩
      | unsubscribeInactive hret | clearProxy hret =>
          refine hquiet ?_ (fun _ _ _ h => (by cases h)) (hnone (by simp) (by simp))
          rcases hret with ⟨-, rfl⟩ | ⟨-, rfl⟩
          · exact isAnswer_none
          · exact isAnswer_some rfl
      | receiveRead hret =>
          refine hquiet ?_ (fun _ _ _ h => (by cases h)) (hnone (by simp) (by simp))
          rcases hret with ⟨r', -, rfl⟩ | ⟨-, rfl⟩
          · exact isAnswer_none
          · exact isAnswer_some rfl
      | receiveInbox x p hp hinbox hret =>
          refine hquiet ?_ (fun _ _ _ h => (by cases h)) (hnone (by simp) (by simp))
          rcases hret with ⟨r', -, rfl⟩ | ⟨-, rfl⟩
          · exact isAnswer_none
          · exact isAnswer_some rfl
      | callPublish | callUnsubscribe | fanout | put | got =>
          exact hquiet (isAnswer_some rfl) (fun _ _ _ h => (by cases h)) (hnone (by simp) (by simp))
      | _ => exact hquiet isAnswer_none (fun _ _ _ h => (by cases h)) (hnone (by simp) (by simp))
    · cases hstep with
      | publish arg => exact hquiet (isAnswer_some rfl) (fun _ _ _ h => (by cases h)) fun _ _ => rfl
      | subscribeMore hg =>
          refine hquiet isAnswer_none ?_ (hnone (by simp) (by simp))
          intro name id g hpc
          cases hpc
          exact Or.inr ⟨_, rfl⟩
      | insertLast ch x | unlockFailed ch x | freeDeactivate x | freeInbox x p f f' hp hinbox hf =>
          refine hquiet isAnswer_none ?_ (hnone (by simp) (by simp))
          intro name id g hpc
          cases hpc
          exact Or.inr ⟨_, rfl⟩
      | subscribeFailed hg | newProxy ch | freeRelease x | newSubscription x =>
          exact hquiet (isAnswer_some rfl) (fun _ _ _ _ => Or.inl rfl) (hnone (by simp) (by simp))
      | _ => exact hquiet isAnswer_none (fun _ _ _ h => (by cases h)) (hnone (by simp) (by simp))
  · -- The thread is marked as faulted, and its program point stays.
    have hsame : b'.pc = b.pc := by rw [hb']
    refine .quiet isAnswer_none ?_ ?_
    · intro name id g hg
      rw [hsame]
      exact Or.inr ⟨g, hg⟩
    · intro arg harg
      right
      rw [hb']
      exact harg

/-! ### What a step inside the broker is for the other sessions -/

/-- The events of a thread are about its own call. -/
theorem ofBroker_threadStep {t t' : Tid n} (hne : t ≠ t') {sh sh' : MessageBroker.Shared n}
    {pc pc' : MessageBroker.Pc} {e : Option (MessageBroker.Event n)}
    (h : MessageBroker.ThreadStep t sh pc sh' pc' e ∨ MessageBroker.FailStep t sh pc sh' pc' e) :
    e.bind (ofBroker t') = none := by
  rcases h with h | h
  · cases h with
    | unsubscribeInactive hret | clearProxy hret => rcases hret with ⟨-, rfl⟩ | ⟨-, rfl⟩ <;> rfl
    | receiveRead hret => rcases hret with ⟨_, -, rfl⟩ | ⟨-, rfl⟩ <;> rfl
    | receiveInbox x p hp hinbox hret => rcases hret with ⟨_, -, rfl⟩ | ⟨-, rfl⟩ <;> rfl
    | pendingRead hret =>
        rcases hret with ⟨-, rfl⟩ | ⟨-, count, rfl⟩
        · rfl
        · exact if_neg hne
    | callSubscribe | newSubscription | release => exact if_neg hne
    | _ => rfl
  · cases h <;> rfl

/-- A step of another thread leaves the call of a client alone and shows nothing of it. -/
theorem next_session_frame {b b' : MessageBroker.State n} {a : MessageBroker.Action n}
    {e : Option (MessageBroker.Event n)} {c : Nat} (h : MessageBroker.next b a = some (b', e))
    (hactor : actor a ≠ .client c) :
    b'.pc (.client c) = b.pc (.client c) ∧ publishOf b' c = publishOf b c ∧
      e.bind (ofBroker (.client c)) = none := by
  have hpc := pc_of_ne_actor h hactor.symm
  have hpublish : b'.pool.client c = b.pool.client c → publishOf b' c = publishOf b c := by
    intro hclient
    unfold publishOf
    rw [hpc, hclient]
  rcases MessageBroker.next_cases h with ⟨pa, pool, t, pc, e', hpa, hstep, rfl, -, -, hb'⟩ |
    ⟨t, move, sh, pc, rfl, hf, hb'⟩ | ⟨t, rfl, hb'⟩
  · cases hstep with
    | dispatcher hidle hf =>
        refine ⟨hpc, hpublish (by rw [hb']), ?_⟩
        cases e' with
        | none => rfl
        | some e' =>
            rcases ThreadPool.dispatcherFunction_event hf e' rfl with ⟨_, rfl⟩ | ⟨_, rfl⟩ <;> rfl
    | @client c' move sh pc e' pc₀ hf _ =>
        have hne : c ≠ c' := by
          rintro rfl
          exact hactor ((actor_of_poolAction hpa).2 _ _ rfl)
        refine ⟨hpc, hpublish ?_, ?_⟩
        · rw [hb']
          exact Function.update_of_ne hne _ _
        · cases e' with
          | none => rfl
          | some e' =>
              cases e' with
              | submitted c'' task =>
                  obtain ⟨rfl, -, -⟩ := (clientFunction_poolArg hf).1 _ _ rfl
                  exact if_neg fun heq => hne (Tid.client.inj heq).symm
              | _ => rfl
  · refine ⟨hpc, hpublish (by rw [hb']), ?_⟩
    refine ofBroker_threadStep hactor ((MessageBroker.threadFunction_cases hf).imp id And.left)
  · exact ⟨hpc, hpublish (by rw [hb']), rfl⟩

/-! ### The session and the connection -/

/-- What the phase of a session is while its handler reads. -/
def ReadPhase (phase : Phase) : ReadPc → Prop
  | .line _ => phase = .ready
  | .malloc name len | .body name len => phase = .running (.publish name len)
  | .newline name content => phase = .running (.publish name (.ofNat content.length))

/-- What the phase of a session is at the program points of its handler. -/
def PhaseInv (phase : Phase) (b : MessageBroker.State n) (i : Nat) (ctx : Connection) : Prop :=
  match ctx.handler with
  | .absent | .testRunning => phase = .ready
  | .read pc => ReadPhase phase pc
  | .callPublish name content => phase = .running (.publish name (.ofNat content.length))
  | .reply r last => phase.allows r = true ∧ (last = true ↔ r = .bye)
  | .callSubscribe name => phase = .running (.subscribe name)
  | .subscribing => ∃ name id g,
      b.pc (.client (Client.handler i).number) = .subscribe name id g ∧ phase = .subscribing id
  | .activate false | .createReceiver false | .getId | .detachGetId => ∃ k,
      ctx.subscription = some k ∧ phase = .answering (.okNumber (b.shared.subscription k).id.toNat)
  | .activate true | .createReceiver true | .callPending | .pendingCount => ∃ k,
      ctx.subscription = some k ∧ phase = .counting k
  | .findDetached id => phase = .running (.attach id)
  | .deactivate | .joinDetach | .addDetached | .linkDetached _ => phase = .running .detach
  | .publishing => ∃ arg,
      publishOf b (Client.handler i).number = some arg ∧ phase = .publishing arg
  | .leave | .joinLeave | .callUnsubscribe | .unsubscribing | .callFree | .freeing | .closed
  | .faulted => True

/-- The session knows what the connection holds and how far its handler is. -/
structure SessionInv (x : Session) (b : MessageBroker.State n) (i : Nat) (ctx : Connection) :
    Prop where
  authenticated : x.authenticated = ctx.authenticated
  subscription : x.subscription = heldBy ctx
  phase : PhaseInv x.phase b i ctx
  faulted : ctx.handler = .faulted → ctx.receiver = .absent

/-- The phase depends on the broker only through the call of the handler and the id of its
subscription. -/
theorem PhaseInv.congr {phase : Phase} {b b' : MessageBroker.State n} {i : Nat} {ctx : Connection}
    (h : PhaseInv phase b i ctx)
    (hpc : b'.pc (.client (Client.handler i).number) = b.pc (.client (Client.handler i).number))
    (hpublish : publishOf b' (Client.handler i).number = publishOf b (Client.handler i).number)
    (hid : ∀ k, ctx.subscription = some k → ctx.handler ≠ .faulted →
      (b'.shared.subscription k).id = (b.shared.subscription k).id) : PhaseInv phase b' i ctx := by
  unfold PhaseInv at h ⊢
  rw [hpc, hpublish]
  split at h <;> try exact h
  all_goals
    obtain ⟨k, hk, hphase⟩ := h
    refine ⟨k, hk, ?_⟩
    rw [hid k hk (by simp [*])]
    exact hphase

/-! ### The steps of the handler -/

section
variable {apiKey : Option CString} {b : MessageBroker.State n} {i : Nat} {running : Bool}
  {registry registry' : List Detached} {ctx ctx' : Connection} {move : Move} {x : Session}
  {e : Option (Event n)}

/-- The one reply of an answer is allowed. -/
@[simp] theorem allows_answering (r : Reply) : (Phase.answering r).allows r = true := by
  simp [Phase.allows]

/-- A refusal is allowed where it is listed. -/
theorem allows_refusal {phase : Phase} {e : Error} (h : e ∈ phase.refusals) :
    phase.allows (.err e) = true := by
  simp [Phase.allows, h]

/-- `AUTH` is not answered `BYE`. -/
theorem handleAuth_ne_bye (apiKey : Option CString) (authenticated : Bool) (key : CString) :
    (handleAuth apiKey authenticated key).2 ≠ .bye := by
  unfold handleAuth
  split_ifs
  · simp
  · split
    · simp
    · split_ifs <;> simp

/-- A command is the same for the session and for the connection. -/
theorem sessionInv_handleCommand (h : SessionInv x b i ctx) {pc : ReadPc}
    (hpc : ctx.handler = .read pc) (buffer : List UInt8) :
    SessionInv (x.command apiKey buffer) b i (handleCommand apiKey ctx buffer) := by
  obtain ⟨hauth, hsub, -, -⟩ := h
  rw [heldBy_eq (by simp [hpc]) (by simp [hpc])] at hsub
  refine ⟨?_, ?_, ?_, fun hfault => absurd hfault (handleCommand_ne rfl)⟩
  · unfold Session.command handleCommand
    rw [hauth]
    generalize dispatch ctx.authenticated (.ofBuffer buffer) = command
    cases command <;> rfl
  · rw [heldBy_handleCommand, ← hsub]
    unfold Session.command
    split <;> rfl
  · unfold Session.command handleCommand
    rw [hauth, hsub]
    generalize dispatch ctx.authenticated (.ofBuffer buffer) = command
    cases command with
    | auth key =>
        exact ⟨allows_answering _, by simpa using handleAuth_ne_bye apiKey ctx.authenticated key⟩
    | publish name len =>
        by_cases hlen : maxContentSize < len <;> simp [handlePublish, hlen, PhaseInv, ReadPhase]
    | subscribe name | attach id | detach =>
        by_cases hsome : ctx.subscription.isSome <;> simp [hsome, PhaseInv]
    | quit | error e => simp [PhaseInv]

/-- How a session goes on after a read of its handler. -/
inductive ReadOutcome (phase : Phase) : ReadResult → Prop where
  | more (pc : ReadPc) (h : ReadPhase phase pc) : ReadOutcome phase (.more pc)
  | command (buffer : List UInt8) (h : phase = .ready) : ReadOutcome phase (.command buffer)
  | leave : ReadOutcome phase .leave
  | publish (name : CString) (content : List UInt8)
      (h : phase = .running (.publish name (.ofNat content.length))) :
      ReadOutcome phase (.publish name content)
  | failed (e : Error) (h : e ∈ phase.refusals) : ReadOutcome phase (.failed e)

/-- A read of the handler is a part of its command. -/
theorem readStep_outcome {phase : Phase} {pc : ReadPc} {input : Input} {r : ReadResult}
    (h : readStep pc input = some r) (hphase : ReadPhase phase pc) : ReadOutcome phase r := by
  cases pc with
  | line buffer =>
      rcases readStep_line h with ⟨buffer', rfl⟩ | ⟨buffer', rfl⟩ | rfl
      · exact .more _ hphase
      · exact .command _ hphase
      · exact .leave
  | malloc name len =>
      obtain rfl : phase = .running (.publish name len) := hphase
      cases input with
      | memory =>
          obtain rfl := Option.some.inj h
          exact .more _ rfl
      | noMemory =>
          obtain rfl := Option.some.inj h
          exact .failed _ List.mem_cons_self
      | _ => cases h
  | body name len =>
      obtain rfl : phase = .running (.publish name len) := hphase
      have hfailed : Error.failedToReadContent ∈ (Phase.running (.publish name len)).refusals :=
        List.mem_cons_of_mem _ List.mem_cons_self
      cases input with
      | bytes bs =>
          simp only [readStep, Option.ite_none_left_eq_some] at h
          obtain ⟨-, h⟩ := h
          by_cases hlen : bs.length = len.toNat
          · rw [if_pos hlen] at h
            obtain rfl := Option.some.inj h
            refine .more _ ?_
            show Phase.running _ = _
            rw [hlen, UInt64.ofNat_toNat]
          · rw [if_neg hlen] at h
            obtain rfl := Option.some.inj h
            exact .failed _ hfailed
      | closed =>
          obtain rfl := Option.some.inj h
          exact .failed _ hfailed
      | _ => cases h
  | newline name content =>
      have hpublish : r = .publish name content := by
        cases input with
        | bytes bs =>
            match bs, h with
            | [_], h => exact (Option.some.inj h).symm
        | closed => exact (Option.some.inj h).symm
        | memory => cases h
        | noMemory => cases h
      rw [hpublish]
      exact .publish _ _ hphase

/-- A handler whose subscription lives reads the id of it. -/
theorem withId_of_live {sh : MessageBroker.Shared n} {k : Nat} (hk : ctx.subscription = some k)
    (hlive : (sh.subscription k).released = false) (pc : UInt64 → HandlerPc) :
    withId sh ctx pc = pc (sh.subscription k).id := by
  rw [withId, getId_of_live hk hlive]

/-- A step of the handler outside the broker is an event of the session, or the session does not
notice it. -/
theorem HandlerStep.sessionInv
    (h : HandlerStep apiKey i running b.shared registry ctx move (.step ctx' registry' e))
    (hinv : SessionInv x b i ctx) (hconn : ConnectionInv ctx)
    (hlive : ∀ k, heldBy ctx = some k → (b.shared.subscription k).released = false)
    (hlink : ∀ id k, ctx.handler = .linkDetached id → heldBy ctx = some k →
      id = (b.shared.subscription k).id) :
    ∃ y, (session apiKey).stepView x (e.bind (ofServer i)) = some y ∧ SessionInv y b i ctx' := by
  obtain ⟨hauth, hsub, hphase, hfault⟩ := id hinv
  -- The steps that the session does not notice.
  have hquiet : e.bind (ofServer i) = none → SessionInv x b i ctx' →
      ∃ y, (session apiKey).stepView x (e.bind (ofServer i)) = some y ∧ SessionInv y b i ctx' := by
    intro he hinv'
    rw [he]
    exact ⟨x, rfl, hinv'⟩
  have hheld : ctx.handler ≠ .detachGetId → ctx.handler ≠ .faulted →
      x.subscription = ctx.subscription := fun h₁ h₂ => hsub.trans (heldBy_eq h₁ h₂)
  unfold PhaseInv at hphase
  unfold ConnectionInv at hconn
  cases h with
  | start hpc =>
      rw [hpc] at hphase
      exact hquiet rfl ⟨hauth, hheld (by simp [hpc]) (by simp [hpc]), hphase, fun h => (by cases h)⟩
  | stopped hpc | readLeave hpc =>
      exact hquiet rfl ⟨hauth, hheld (by simp [hpc]) (by simp [hpc]), trivial, fun h => (by cases h)⟩
  | readMore hpc hread =>
      rw [hpc] at hphase
      cases readStep_outcome hread hphase with
      | more pc hmore =>
          exact hquiet rfl ⟨hauth, hheld (by simp [hpc]) (by simp [hpc]), hmore,
            fun h => (by cases h)⟩
  | @command pc input buffer hpc hread =>
      rw [hpc] at hphase
      cases readStep_outcome hread hphase with
      | command _ hready =>
          refine ⟨x.command apiKey buffer, ?_, sessionInv_handleCommand hinv hpc buffer⟩
          simp [ofServer, Monitor.stepView, session, Session.step, hready]
  | readPublish hpc hread =>
      rw [hpc] at hphase
      cases readStep_outcome hread hphase with
      | publish _ _ hpublish =>
          exact hquiet rfl ⟨hauth, hheld (by simp [hpc]) (by simp [hpc]), hpublish,
            fun h => (by cases h)⟩
  | readFailed hpc hread =>
      rw [hpc] at hphase
      cases readStep_outcome hread hphase with
      | failed e hrefusal =>
          exact hquiet rfl ⟨hauth, hheld (by simp [hpc]) (by simp [hpc]),
            ⟨allows_refusal hrefusal, by simp⟩, fun h => (by cases h)⟩
  | @reply r last hpc =>
      rw [hpc] at hphase
      obtain ⟨hallows, hlast⟩ := hphase
      refine ⟨{ x with phase := if r = .bye then .closed else .ready }, ?_, hauth, ?_, ?_, ?_⟩
      · simp [ofServer, Monitor.stepView, session, Session.step, hallows]
      · cases last <;> exact hheld (by simp [hpc]) (by simp [hpc])
      · by_cases hbye : r = .bye
        · rw [if_pos hbye, if_pos (hlast.mpr hbye)]
          trivial
        · rw [if_neg hbye, if_neg fun h => hbye (hlast.mp h)]
          rfl
      · cases last <;> exact fun h => (by cases h)
  | @activate attach hpc =>
      rw [hpc] at hphase
      exact hquiet rfl ⟨hauth, hheld (by simp [hpc]) (by simp [hpc]), by cases attach <;> exact hphase,
        fun h => (by cases h)⟩
  | @createReceiver attach hpc =>
      rw [hpc] at hphase
      refine hquiet rfl ⟨hauth, ?_, ?_, ?_⟩
      · cases attach <;> exact hheld (by simp [hpc]) (by simp [hpc])
      · cases attach <;> exact hphase
      · cases attach <;> exact fun h => (by cases h)
  | @createFailed attach hpc =>
      rw [hpc] at hphase
      refine hquiet rfl ⟨hauth, ?_, ?_, ?_⟩
      · cases attach <;> exact hheld (by simp [hpc]) (by simp [hpc])
      · cases attach <;> exact hphase
      · cases attach <;> exact fun h => (by cases h)
  | getId hpc =>
      rw [hpc] at hphase
      obtain ⟨k, hk, hphase⟩ := hphase
      have hown : heldBy ctx = some k := by rw [heldBy_eq (by simp [hpc]) (by simp [hpc]), hk]
      rw [withId_of_live hk (hlive k hown)] at hquiet ⊢
      refine hquiet rfl ⟨hauth, hheld (by simp [hpc]) (by simp [hpc]), ⟨?_, by simp⟩,
        fun h => (by cases h)⟩
      rw [hphase]
      exact allows_answering _
  | notFound hpc hfind =>
      rw [hpc] at hphase
      refine hquiet rfl ⟨hauth, hheld (by simp [hpc]) (by simp [hpc]), ⟨?_, by simp⟩,
        fun h => (by cases h)⟩
      rw [hphase]
      exact allows_refusal List.mem_cons_self
  | @attach id k rest hpc hfind =>
      rw [hpc] at hphase
      refine ⟨{ x with subscription := some k, phase := .counting k }, ?_, hauth, rfl, ⟨k, rfl, rfl⟩,
        fun h => (by cases h)⟩
      simp [ofServer, Monitor.stepView, session, Session.step, hphase]
  | deactivate hpc | joinDetach hpc =>
      rw [hpc] at hphase
      exact hquiet rfl ⟨hauth, hheld (by simp [hpc]) (by simp [hpc]), hphase, fun h => (by cases h)⟩
  | addDetached hpc =>
      rw [hpc] at hphase hconn
      obtain ⟨k, hk⟩ := Option.ne_none_iff_exists'.mp hconn.1.subscription
      have hown : heldBy ctx = some k := by rw [heldBy_eq (by simp [hpc]) (by simp [hpc]), hk]
      rw [withId_of_live hk (hlive k hown)] at hquiet ⊢
      exact hquiet rfl ⟨hauth, hheld (by simp [hpc]) (by simp [hpc]), hphase, fun h => (by cases h)⟩
  | addFailed hpc =>
      rw [hpc] at hphase hconn
      obtain ⟨k, hk⟩ := Option.ne_none_iff_exists'.mp hconn.1.subscription
      have hown : heldBy ctx = some k := by rw [heldBy_eq (by simp [hpc]) (by simp [hpc]), hk]
      rw [withId_of_live hk (hlive k hown)] at hquiet ⊢
      refine hquiet rfl ⟨hauth, hheld (by simp [hpc]) (by simp [hpc]), ⟨?_, by simp⟩,
        fun h => (by cases h)⟩
      rw [hphase]
      exact allows_refusal List.mem_cons_self
  | @link id k hpc hk =>
      rw [hpc] at hphase
      have hown : heldBy ctx = some k := by rw [heldBy_eq (by simp [hpc]) (by simp [hpc]), hk]
      have hid := hlink id k hpc hown
      refine ⟨{ x with subscription := none, phase := .answering (.okNumber id.toNat) }, ?_, hauth,
        rfl, ⟨k, hk, by rw [hid]⟩, fun h => (by cases h)⟩
      simp [ofServer, Monitor.stepView, session, Session.step, hphase, hsub, hown]
  | @detach id hpc hid =>
      rw [hpc] at hphase hconn
      obtain ⟨k, hk, hphase⟩ := hphase
      refine hquiet rfl ⟨hauth, ?_, ⟨?_, by simp⟩, fun h => (by cases h)⟩
      · rw [hsub, heldBy, hpc]
        rfl
      · have hreleased : (b.shared.subscription k).id = id := by
          rw [Miez.NetworkServer.getId, hk] at hid
          simp only [Option.ite_none_left_eq_some, Option.some.injEq] at hid
          exact hid.2
        rw [hphase, hreleased]
        exact allows_answering _
  | detachFault hpc hid =>
      rw [hpc] at hconn
      refine hquiet rfl ⟨hauth, ?_, trivial, fun _ => hconn.2⟩
      rw [hsub, heldBy, hpc]
      rfl
  | publishFailed hpc =>
      rw [hpc] at hphase
      refine hquiet rfl ⟨hauth, hheld (by simp [hpc]) (by simp [hpc]), ⟨?_, by simp⟩,
        fun h => (by cases h)⟩
      rw [hphase]
      exact allows_refusal (List.mem_cons_of_mem _ (List.mem_cons_of_mem _ List.mem_cons_self))
  | leave hpc =>
      refine hquiet rfl ⟨hauth, ?_, ?_, ?_⟩
      · split_ifs <;> exact hheld (by simp [hpc]) (by simp [hpc])
      · split_ifs <;> trivial
      · split_ifs <;> exact fun h => (by cases h)
  | joinLeave hpc =>
      exact hquiet rfl ⟨hauth, hheld (by simp [hpc]) (by simp [hpc]), trivial, fun h => (by cases h)⟩

/-! ### The calls of the broker -/

/-- A call of the broker by the handler is a part of its command. -/
theorem HandlerStep.sessionInv_call {b' : MessageBroker.State n} {call : MessageBroker.Move n}
    {e : Option (MessageBroker.Event n)}
    (h : HandlerStep apiKey i running b.shared registry ctx move (.call ctx' call))
    (hinv : SessionInv x b i ctx)
    (hidle : b.pc (.client (Client.handler i).number) = .idle)
    (hb : MessageBroker.next b (callAction (.handler i) call) = some (b', e)) :
    ∃ y, (session apiKey).stepView x ((e.map (callEvent i ctx)).bind (ofServer i)) = some y ∧
      SessionInv y b' i ctx' := by
  obtain ⟨hauth, hsub, hphase, hfault⟩ := hinv
  have hheld : ctx.handler ≠ .detachGetId → ctx.handler ≠ .faulted →
      x.subscription = ctx.subscription := fun h₁ h₂ => hsub.trans (heldBy_eq h₁ h₂)
  -- An event of the broker that is no answer is nothing for the session.
  have hquiet : ∀ {e : Option (MessageBroker.Event n)},
      (∀ name content, ctx.handler ≠ .callPublish name content) →
      (∀ y, e = some y → isAnswer y = false) →
      (e.map (callEvent i ctx)).bind (ofServer i) = none := by
    intro e hpc he
    cases e with
    | none => rfl
    | some y =>
        have hevent : callEvent i ctx y = .broker y := by
          unfold callEvent
          split
          · exact absurd ‹_› (hpc _ _)
          · rfl
        show ofServer i (callEvent i ctx y) = none
        rw [hevent]
        exact ofBroker_eq_none he _
  unfold PhaseInv at hphase
  cases h with
  | @callSubscribe name hpc =>
      rw [hpc] at hphase
      obtain ⟨sh, pc, hcall, hb'⟩ := next_call rfl (Or.inl hidle) hb
      obtain ⟨-, rfl, rfl⟩ := MessageBroker.Outcome.step.inj (Option.some.inj hcall)
      refine ⟨{ x with phase := .subscribing b.shared.nextSubscriberId }, ?_, hauth,
        hheld (by simp [hpc]) (by simp [hpc]), ⟨name, b.shared.nextSubscriberId, .getChannel .lock, ?_, rfl⟩,
        fun h => (by cases h)⟩
      · simp [callEvent, hpc, ofServer, ofBroker, Monitor.stepView, session, Session.step, hphase]
      · rw [hb']
        exact Function.update_self ..
  | @callPending k hpc hk =>
      rw [hpc] at hphase
      obtain ⟨sh, pc, hcall, hb'⟩ := next_call rfl (Or.inl hidle) hb
      simp only [MessageBroker.call, Option.ite_none_right_eq_some, Option.some.injEq,
        MessageBroker.Outcome.step.injEq] at hcall
      obtain ⟨-, -, -, rfl⟩ := hcall
      exact ⟨x, by rw [hquiet (by simp [hpc]) isAnswer_none]; rfl, hauth,
        hheld (by simp [hpc]) (by simp [hpc]), hphase, fun h => (by cases h)⟩
  | @callPublish name content hpc =>
      rw [hpc] at hphase
      obtain ⟨sh, pc, hcall, hb'⟩ := next_call rfl (Or.inl hidle) hb
      obtain ⟨-, rfl, rfl⟩ := MessageBroker.Outcome.step.inj (Option.some.inj hcall)
      refine ⟨{ x with phase := .publishing ⟨b.shared.nextMessageId, name, .ofBuffer content,
        b.shared.nextPublish⟩ }, ?_, hauth, hheld (by simp [hpc]) (by simp [hpc]), ⟨_, ?_, rfl⟩,
        fun h => (by cases h)⟩
      · simp [callEvent, hpc, ofServer, Monitor.stepView, session, Session.step, hphase]
      · have hpc' : b'.pc (.client (Client.handler i).number) = .publish ⟨b.shared.nextMessageId, name,
            .ofBuffer content, b.shared.nextPublish⟩ := by
          rw [hb']
          exact Function.update_self ..
        rw [publishOf, hpc']
  | @callUnsubscribe k hpc hk =>
      obtain ⟨sh, pc, hcall, hb'⟩ := next_call rfl (Or.inl hidle) hb
      simp only [MessageBroker.call, Option.ite_none_right_eq_some, Option.some.injEq,
        MessageBroker.Outcome.step.injEq] at hcall
      obtain ⟨-, -, -, rfl⟩ := hcall
      exact ⟨x, by rw [hquiet (by simp [hpc]) (isAnswer_some rfl)]; rfl, hauth,
        hheld (by simp [hpc]) (by simp [hpc]), trivial, fun h => (by cases h)⟩
  | @callFree k hpc hk =>
      obtain ⟨sh, pc, hcall, hb'⟩ := next_call rfl (Or.inl hidle) hb
      have he : ∀ y, e = some y → isAnswer y = false := by
        simp only [MessageBroker.call, Option.ite_none_right_eq_some, Option.some.injEq] at hcall
        obtain ⟨-, hcall⟩ := hcall
        split at hcall
        · obtain ⟨-, -, rfl⟩ := MessageBroker.Outcome.step.inj hcall
          exact isAnswer_some rfl
        · obtain ⟨-, -, rfl⟩ := MessageBroker.Outcome.step.inj hcall
          exact isAnswer_none
      exact ⟨x, by rw [hquiet (by simp [hpc]) he]; rfl, hauth,
        hheld (by simp [hpc]) (by simp [hpc]), trivial, fun h => (by cases h)⟩

/-- The return of a call of the broker is an answer to the command. -/
theorem handlerReturn_sessionInv {b' : MessageBroker.State n} {a : MessageBroker.Action n}
    {e : Option (MessageBroker.Event n)} (hinv : SessionInv x b i ctx)
    (hcall : callOf (b.pc (.client (Client.handler i).number)) = handlerCall ctx)
    (hinside : isInside b a = true) (hb : MessageBroker.next b a = some (b', e))
    (hclient : clientNumber a = some (Client.handler i).number)
    (hidle : b'.pc (.client (Client.handler i).number) = .idle) :
    ∃ y, (session apiKey).stepView x ((e.map .broker).bind (ofServer i)) = some y ∧
      SessionInv y b' i (handlerReturn ctx e) := by
  obtain ⟨hauth, hsub, hphase, hfault⟩ := hinv
  have hheld : ctx.handler ≠ .detachGetId → ctx.handler ≠ .faulted →
      x.subscription = ctx.subscription := fun h₁ h₂ => hsub.trans (heldBy_eq h₁ h₂)
  have hactor := actor_of_clientNumber.mpr hclient
  have hnot : handlerCall ctx ≠ .outside := fun h =>
    not_idle_of_inside hinside hb hclient (callOf_eq_outside.mp (hcall.trans h))
  have hcalls := next_callEffect hb
  rw [hactor, hidle, hcall] at hcalls
  have heffect := next_sessionEffect hb hactor
  have hview : (e.map Event.broker).bind (ofServer i)
      = e.bind (ofBroker (.client (Client.handler i).number)) := by
    cases e <;> rfl
  rw [hview]
  unfold PhaseInv at hphase
  cases hpc : ctx.handler with
  | subscribing =>
      rw [hpc] at hphase
      obtain ⟨name, id, g, hold, hphase⟩ := hphase
      cases heffect with
      | subscribing _ _ _ hpc' => rw [hpc'] at hidle; cases hidle
      | subscribed id' name' y hold' _ hshared =>
          obtain ⟨-, rfl, -⟩ : name = name' ∧ id = id' ∧ _ := by
            rw [hold] at hold'
            exact MessageBroker.Pc.subscribe.inj hold'
          refine ⟨{ x with
            subscription := some b.shared.nextSubscription
            phase := .answering (.okNumber id.toNat) }, ?_, ?_⟩
          · simp [ofBroker, Monitor.stepView, session, Session.step, hphase]
          · rw [show handlerReturn ctx _ = { ctx with
                subscription := some b.shared.nextSubscription, handler := .activate false } by
              simp only [handlerReturn, hpc]]
            refine ⟨hauth, rfl, ⟨_, rfl, ?_⟩, fun h => (by cases h)⟩
            rw [hshared]
            simp [MessageBroker.Shared.newSubscription, MessageBroker.Shared.setSubscription]
      | published task harg =>
          rw [publishOf, hold] at harg
          cases harg
      | counted k count hold' =>
          rw [hold] at hold'
          cases hold'
      | freed k hold' =>
          rw [hold] at hold'
          cases hold'
      | quiet he =>
          rw [ofBroker_eq_none he]
          refine ⟨x, rfl, ?_⟩
          have hreply : handlerReturn ctx e
              = { ctx with handler := .reply (.err .failedToSubscribe) false } := by
            unfold handlerReturn
            rw [hpc]
            split
            · cases he _ rfl
            all_goals simp_all
          rw [hreply]
          refine ⟨hauth, hheld (by simp [hpc]) (by simp [hpc]), ⟨?_, by simp⟩, fun h => (by cases h)⟩
          rw [hphase]
          exact allows_refusal List.mem_cons_self
  | publishing =>
      rw [hpc] at hphase
      obtain ⟨arg, hold, hphase⟩ := hphase
      have hpool : callOf (b.pc (.client (Client.handler i).number)) = .pool := by
        rw [hcall, handlerCall, hpc]
      cases heffect with
      | subscribing _ _ _ hpc' => rw [hpc'] at hidle; cases hidle
      | subscribed id name y hold' =>
          rw [hold'] at hpool
          cases hpool
      | published task harg =>
          obtain rfl : arg = task.arg := Option.some.inj (hold.symm.trans harg)
          refine ⟨{ x with phase := .answering .ok }, ?_, ?_⟩
          · simp [ofBroker, Monitor.stepView, session, Session.step, hphase]
          · rw [show handlerReturn ctx _ = { ctx with handler := .reply .ok false } by
              simp only [handlerReturn, hpc]]
            exact ⟨hauth, hheld (by simp [hpc]) (by simp [hpc]), ⟨allows_answering _, by simp⟩,
              fun h => (by cases h)⟩
      | counted k count hold' =>
          rw [hpool] at hold'
          cases hold'
      | freed k hold' =>
          rw [hold'] at hpool
          cases hpool
      | quiet he =>
          rw [ofBroker_eq_none he]
          refine ⟨x, rfl, ?_⟩
          have hreply : handlerReturn ctx e
              = { ctx with handler := .reply (.err .failedToPublish) false } := by
            unfold handlerReturn
            rw [hpc]
            split
            · simp_all
            · simp_all
            · simp_all
            · cases he _ rfl
            all_goals simp_all
          rw [hreply]
          refine ⟨hauth, hheld (by simp [hpc]) (by simp [hpc]), ⟨?_, by simp⟩, fun h => (by cases h)⟩
          rw [hphase]
          exact allows_refusal List.mem_cons_self
  | pendingCount =>
      rw [hpc] at hphase
      obtain ⟨k, hk, hphase⟩ := hphase
      rw [show handlerCall ctx = .pendingCount k by rw [handlerCall, hpc, hk]; rfl] at hcalls
      cases hcalls with
      | leave h => rcases h with h | h | h <;> cases h
      | pending _ count _ =>
          refine ⟨{ x with phase := .answering (.okNumber count) }, ?_, ?_⟩
          · simp [ofBroker, Monitor.stepView, session, Session.step, hphase]
          · rw [show handlerReturn ctx _ = { ctx with handler := .reply (.okNumber count) false } by
              simp only [handlerReturn, hpc]]
            exact ⟨hauth, hheld (by simp [hpc]) (by simp [hpc]), ⟨allows_answering _, by simp⟩,
              fun h => (by cases h)⟩
  | unsubscribing =>
      obtain ⟨k, hk⟩ : ∃ k, ctx.subscription = some k := by
        cases hk : ctx.subscription with
        | none => exact absurd (by rw [handlerCall, hpc, hk]; rfl) hnot
        | some k => exact ⟨k, rfl⟩
      rw [show handlerCall ctx = .unsubscribe k by rw [handlerCall, hpc, hk]; rfl] at hcalls
      cases hcalls with
      | leave h => rcases h with h | h | h <;> cases h
      | unsubscribed _ code _ =>
          refine ⟨x, rfl, ?_⟩
          rw [show handlerReturn ctx _ = { ctx with handler := .callFree } by
            simp only [handlerReturn, hpc]]
          exact ⟨hauth, hheld (by simp [hpc]) (by simp [hpc]), trivial, fun h => (by cases h)⟩
  | freeing =>
      obtain ⟨k, hk⟩ : ∃ k, ctx.subscription = some k := by
        cases hk : ctx.subscription with
        | none => exact absurd (by rw [handlerCall, hpc, hk]; rfl) hnot
        | some k => exact ⟨k, rfl⟩
      rw [show handlerCall ctx = .free k by rw [handlerCall, hpc, hk]; rfl] at hcalls
      generalize hshared : b'.shared = sh' at hcalls
      cases hcalls with
      | leave h => rcases h with h | h | h <;> cases h
      | freed _ hlive =>
          have hown : x.subscription = some k := (hheld (by simp [hpc]) (by simp [hpc])).trans hk
          refine ⟨{ x with subscription := none, phase := .closed }, ?_, ?_⟩
          · simp [ofBroker, Monitor.stepView, session, Session.step, hown]
          · rw [show handlerReturn ctx _ = { ctx with subscription := none, handler := .closed } by
              simp only [handlerReturn, hpc]]
            exact ⟨hauth, rfl, trivial, fun h => (by cases h)⟩
  | _ => exact absurd (handlerCall_eq_outside (by rw [hpc]; rfl)) hnot

/-- A handler that stays inside the broker stays in its phase. -/
theorem sessionInv_inside {b' : MessageBroker.State n} {a : MessageBroker.Action n}
    {e : Option (MessageBroker.Event n)} (hinv : SessionInv x b i ctx)
    (hcall : callOf (b.pc (.client (Client.handler i).number)) = handlerCall ctx)
    (hinside : isInside b a = true) (hb : MessageBroker.next b a = some (b', e))
    (hclient : clientNumber a = some (Client.handler i).number)
    (hstay : b'.pc (.client (Client.handler i).number) ≠ .idle) :
    ∃ y, (session apiKey).stepView x ((e.map .broker).bind (ofServer i)) = some y ∧
      SessionInv y b' i ctx := by
  obtain ⟨hauth, hsub, hphase, hfault⟩ := hinv
  have hactor := actor_of_clientNumber.mpr hclient
  have hidle := not_idle_of_inside hinside hb hclient
  have hnot : handlerCall ctx ≠ .outside := fun h => hidle (callOf_eq_outside.mp (hcall.trans h))
  have hview : (e.map Event.broker).bind (ofServer i)
      = e.bind (ofBroker (.client (Client.handler i).number)) := by
    cases e <;> rfl
  rw [hview]
  cases next_sessionEffect hb hactor with
  | subscribing _ _ hpc => exact absurd hpc hidle
  | subscribed _ _ _ _ hpc' | published _ _ hpc' | counted _ _ _ hpc' | freed _ _ hpc' =>
      exact absurd hpc' hstay
  | quiet he hsubscribe hpublish =>
      rw [ofBroker_eq_none he]
      refine ⟨x, rfl, hauth, hsub, ?_, hfault⟩
      unfold PhaseInv at hphase ⊢
      cases hpc : ctx.handler with
      | subscribing =>
          rw [hpc] at hphase
          obtain ⟨name, id, g, hold, hphase⟩ := hphase
          obtain ⟨g', hg'⟩ := (hsubscribe name id g hold).resolve_left hstay
          exact ⟨name, id, g', hg', hphase⟩
      | publishing =>
          rw [hpc] at hphase
          obtain ⟨arg, hold, hphase⟩ := hphase
          exact ⟨arg, (hpublish arg hold).resolve_left hstay, hphase⟩
      | pendingCount =>
          rw [hpc] at hphase
          exact hphase
      | unsubscribing | freeing => trivial
      | _ => exact absurd (handlerCall_eq_outside (by rw [hpc]; rfl)) hnot

end

/-! ### The steps of the other threads -/

section
variable {b b' : MessageBroker.State n} {i : Nat} {ctx : Connection} {x : Session}

/-- What the other threads do to the broker leaves the session alone. -/
theorem SessionInv.congr (h : SessionInv x b i ctx)
    (hpc : b'.pc (.client (Client.handler i).number) = b.pc (.client (Client.handler i).number))
    (hpublish : publishOf b' (Client.handler i).number = publishOf b (Client.handler i).number)
    (hid : ∀ k, ctx.subscription = some k → ctx.handler ≠ .faulted →
      (b'.shared.subscription k).id = (b.shared.subscription k).id) : SessionInv x b' i ctx :=
  ⟨h.authenticated, h.subscription, h.phase.congr hpc hpublish hid, h.faulted⟩

/-- The receiver thread leaves the session alone. -/
theorem SessionInv.setReceiver (h : SessionInv x b i ctx) (hpc : ctx.receiver ≠ .absent)
    (pc : ReceiverPc) : SessionInv x b i { ctx with receiver := pc } :=
  ⟨h.authenticated, h.subscription, h.phase, fun hfault => absurd (h.faulted hfault) hpc⟩

/-- The return of a receiver leaves the session alone. -/
theorem SessionInv.receiverReturn (h : SessionInv x b i ctx)
    (e : Option (MessageBroker.Event n)) : SessionInv x b i (receiverReturn ctx e) := by
  unfold Miez.NetworkServer.receiverReturn
  split <;> first
    | exact h
    | exact h.setReceiver (by simp [*]) _

/-- An event of another connection is nothing for the session. -/
theorem ofServer_eq_none {y : Event n} {j : Nat} (hy : eventOf y = some j) (hij : i ≠ j) :
    ofServer i y = none := by
  have hne : ∀ {j' : Nat}, some j' = some j → ¬ j' = i := by
    rintro j' hj rfl
    exact hij (Option.some.inj hj)
  cases y with
  | broker => cases hy
  | publish j' content y =>
      cases y with
      | publishCall => exact if_neg (hne hy)
      | _ => rfl
  | command | attached | linked | frame | reply => exact if_neg (hne hy)
  | accepted | receiverCreated | receiverJoined => rfl

end

section
variable {capacity : UInt64} {hcap : capacity ≠ 0} {apiKey : Option CString}

/-- A step of another thread is a frame of the session, or the session does not notice it. -/
theorem NetStep.sessionInv {s s' : State n} {a : Action n} {e : Option (Event n)}
    (h : NetStep apiKey s a s' e) (hno : s.connection s.nextConnection = noConnection) {i : Nat}
    (ha : ¬ ofHandler i a) {x : Session} (hinv : SessionInv x s.broker i (s.connection i))
    (hconn : ConnectionInv (s.connection i))
    (hid : ∀ k, (s.connection i).subscription = some k → (s.connection i).handler ≠ .faulted →
      (s'.broker.shared.subscription k).id = (s.broker.shared.subscription k).id) :
    ∃ y, (session apiKey).stepView x (e.bind (ofServer i)) = some y ∧
      SessionInv y s'.broker i (s'.connection i) := by
  have hother : ∀ {j : Nat} {ctx : Connection}, i ≠ j →
      Function.update s.connection j ctx i = s.connection i :=
    fun hij => Function.update_of_ne hij ..
  -- What the broker does leaves the session alone, and it may not notice the event.
  have hsame : ∀ {e : Option (Event n)},
      s'.broker.pc (.client (Client.handler i).number) =
        s.broker.pc (.client (Client.handler i).number) ∧
      publishOf s'.broker (Client.handler i).number =
        publishOf s.broker (Client.handler i).number →
      s'.connection i = s.connection i → e.bind (ofServer i) = none →
      ∃ y, (session apiKey).stepView x (e.bind (ofServer i)) = some y ∧
        SessionInv y s'.broker i (s'.connection i) := by
    rintro e ⟨hpc, hpublish⟩ hctx he
    rw [he, hctx]
    exact ⟨x, rfl, hinv.congr hpc hpublish hid⟩
  -- A step of the broker by a client that is not this handler.
  have hclient : ∀ {client : Client} {b : MessageBroker.Action n} {b' : MessageBroker.State n} {e},
      client ≠ .handler i → actor b = .client client.number →
      MessageBroker.next s.broker b = some (b', e) →
      (b'.pc (.client (Client.handler i).number) =
          s.broker.pc (.client (Client.handler i).number) ∧
        publishOf b' (Client.handler i).number =
          publishOf s.broker (Client.handler i).number) ∧
      (e.map Event.broker).bind (ofServer i) = none := by
    intro client b b' e hne hactor hb
    have hactor' : actor b ≠ .client (Client.handler i).number := by
      rw [hactor]
      exact fun heq => hne (number_injective (Tid.client.inj heq))
    obtain ⟨hpc, hpublish, he⟩ := next_session_frame hb hactor'
    exact ⟨⟨hpc, hpublish⟩, by cases e <;> [rfl; exact he]⟩
  have hevent : ∀ {j : Nat} {e : Option (Event n)}, i ≠ j →
      (∀ y, e = some y → eventOf y = some j) → e.bind (ofServer i) = none := by
    intro j e hij he
    cases e with
    | none => rfl
    | some y => exact ofServer_eq_none (he y rfl) hij
  cases h with
  | accept hrunning =>
      by_cases hij : i = s.nextConnection
      · subst hij
        refine ⟨x, rfl, ?_⟩
        show SessionInv x s.broker _ (Function.update s.connection _ newConnection s.nextConnection)
        rw [hno] at hinv
        rw [Function.update_self]
        exact ⟨hinv.authenticated, hinv.subscription, hinv.phase, fun h => (by cases h)⟩
      · exact hsame ⟨rfl, rfl⟩ (hother hij) rfl
  | @handler j move ctx registry e h =>
      have hij : i ≠ j := fun hij => ha hij.symm
      exact hsame ⟨rfl, rfl⟩ (hother hij) (hevent hij (clientHandler_step rfl h).eventOf)
  | @handlerCall j move ctx call b e h hb =>
      have hij : i ≠ j := fun hij => ha hij.symm
      have hne : Client.handler j ≠ .handler i := fun heq => hij (Client.handler.inj heq).symm
      obtain ⟨hbroker, he⟩ := hclient hne rfl hb
      refine hsame hbroker (hother hij) ?_
      cases e with
      | none => rfl
      | some y =>
          show ofServer i (callEvent j _ y) = none
          unfold callEvent
          split
          · exact ofServer_eq_none rfl hij
          · exact he
  | @receiver j move ctx registry e h =>
      have hstep := subscriberReceiverThread_step h
      by_cases hij : i = j
      · subst hij
        show ∃ y, _ ∧ SessionInv y s.broker i (Function.update s.connection i ctx i)
        rw [Function.update_self]
        cases hstep with
        | @write msg k hpc hk =>
            have hne : (s.connection i).receiver ≠ .absent := by simp [hpc]
            refine ⟨x, ?_, hinv.setReceiver hne _⟩
            have hheld : heldBy (s.connection i) = some k := by
              rw [heldBy_eq ?_ fun hfault => hne (hinv.faulted hfault), hk]
              intro hdetach
              unfold ConnectionInv at hconn
              rw [hdetach] at hconn
              exact hne hconn.2
            simp [ofServer, Monitor.stepView, session, Session.step, hinv.subscription, hheld]
        | goOn hpc | exit hpc | malloc hpc | mallocFailed hpc | writeFailed hpc | sleep hpc =>
            exact ⟨x, rfl, hinv.setReceiver (by simp [hpc]) _⟩
      · exact hsame ⟨rfl, rfl⟩ (hother hij) (hevent hij hstep.eventOf)
  | @receiverCall j move ctx call b e h hb =>
      obtain ⟨hbroker, -⟩ := hclient (by simp) rfl hb
      cases subscriberReceiverThread_step h with
      | @callReceive k hpc hk =>
          obtain rfl : e = none := by
            by_contra he
            obtain ⟨sh, pc, hcall, -⟩ := next_call rfl (Or.inr he) hb
            simp only [MessageBroker.call, Option.ite_none_right_eq_some, Option.some.injEq,
              MessageBroker.Outcome.step.injEq] at hcall
            exact he hcall.2.2.2.symm
          by_cases hij : i = j
          · subst hij
            refine ⟨x, rfl, ?_⟩
            show SessionInv x b i (Function.update s.connection i _ i)
            rw [Function.update_self]
            exact (hinv.setReceiver (by simp [hpc]) _).congr hbroker.1 hbroker.2 hid
          · exact hsame hbroker (hother hij) rfl
  | stop | freeStart | freeEnd => exact hsame ⟨rfl, rfl⟩ rfl rfl
  | freeUnsubscribe hmain hcons hb | freeFree hmain hcons hb | publish hb =>
      obtain ⟨hbroker, he⟩ := hclient (by simp) rfl hb
      exact hsame hbroker rfl he
  | @inside a b e hinside hb hstay =>
      obtain ⟨hpc, hpublish, he⟩ := next_session_frame hb fun heq => ha (actor_of_clientNumber.mp heq)
      exact hsame ⟨hpc, hpublish⟩ rfl (by cases e <;> [rfl; exact he])
  | @back a client b e hinside hb hnumber hidle =>
      have hne : client ≠ .handler i := by
        rintro rfl
        exact ha hnumber
      obtain ⟨hbroker, he⟩ := hclient hne (actor_of_clientNumber.mpr hnumber) hb
      cases client with
      | handler j => exact hsame hbroker (hother fun hij => hne (by rw [hij])) he
      | receiver j =>
          by_cases hij : i = j
          · subst hij
            rw [he]
            refine ⟨x, rfl, ?_⟩
            show SessionInv x b i (Function.update s.connection i (receiverReturn _ e) i)
            rw [Function.update_self]
            obtain ⟨hhandler, hsubscription⟩ := receiverReturn_fields (s.connection i) e
            refine (hinv.receiverReturn e).congr hbroker.1 hbroker.2 fun k hk hfault => ?_
            exact hid k (hsubscription.symm.trans hk) fun h => hfault (hhandler.trans h)
          · exact hsame hbroker (hother hij) he
      | publisher j => exact hsame hbroker rfl he
      | main =>
          refine hsame ?_ (congrFun (returnTo_main_connection _ e) i) he
          rw [returnTo_broker]
          exact hbroker

/-! ### Runs -/

/-- A step of a run keeps the id of the subscription of a connection. -/
theorem id_eq_of_run {tr : List (Event n)} {s s' : State n} {a : Action n} {e : Option (Event n)}
    (h : (machine n capacity hcap apiKey).Run tr s) (hnext : next apiKey s a = some (s', e))
    {i k : Nat} (hk : (s.connection i).subscription = some k)
    (hfault : (s.connection i).handler ≠ .faulted) :
    (s'.broker.shared.subscription k).id = (s.broker.shared.subscription k).id := by
  refine (ownerStep_of_run h hnext).id_eq ?_
  by_cases hdetach : (s.connection i).handler = .detachGetId
  · have hlink := linkInv_of_run h
    obtain ⟨pre, id, post, htr, -⟩ := hlink.linked i k hdetach hk
    refine hlink.known i id k ?_
    rw [htr]
    exact List.mem_append_right _ List.mem_cons_self
  · refine ((ownershipInv_of_run h).single.held_live i k ?_).1
    rw [holders, heldBy_eq hdetach hfault, hk]

/-- A step of a run is an event of the session, or the session does not notice it. -/
theorem sessionInv_step {tr : List (Event n)} {s s' : State n} {a : Action n}
    {e : Option (Event n)} (h : (machine n capacity hcap apiKey).Run tr s)
    (hnext : next apiKey s a = some (s', e)) {i : Nat} {x : Session}
    (hinv : SessionInv x s.broker i (s.connection i)) :
    ∃ y, (session apiKey).stepView x (e.bind (ofServer i)) = some y ∧
      SessionInv y s'.broker i (s'.connection i) := by
  have hconn := connectionInv_of_run h i
  have howner := ownershipInv_of_run h
  have hcall : callOf (s.broker.pc (.client (Client.handler i).number)) =
      handlerCall (s.connection i) := callInv_of_run h (.handler i)
  cases handlerChange_of_run h hnext i with
  | other ha =>
      exact (next_netStep hnext).sessionInv (noConnection_of_run h _ le_rfl) ha hinv hconn
        fun k hk hfault => id_eq_of_run h hnext hk hfault
  | step hstep hbroker =>
      rw [hbroker]
      exact hstep.sessionInv hinv hconn (fun k hk => (howner.single.held_live i k hk).2)
        fun id k hpc hk => howner.link i id k hpc hk
  | call hstep hregistry hb =>
      have hidle := callOf_eq_outside.mp (hcall.trans (handlerCall_eq_outside hstep.not_calling))
      exact hstep.sessionInv_call hinv hidle hb
  | inside hctx hregistry hinside hb hclient =>
      rcases hctx with ⟨hctx, hstay⟩ | ⟨hctx, hidle⟩
      · rw [hctx]
        exact sessionInv_inside hinv hcall hinside hb hclient hstay
      · rw [hctx]
        exact handlerReturn_sessionInv hinv hcall hinside hb hclient hidle

/-- The session of a connection reads every run. -/
theorem sessionInv_of_run {tr : List (Event n)} {s : State n}
    (h : (machine n capacity hcap apiKey).Run tr s) (i : Nat) :
    ∃ x, (session apiKey).run (sessionTrace i tr) = some x ∧
      SessionInv x s.broker i (s.connection i) := by
  refine Monitor.accepts_of_simulation (R := fun x s => SessionInv x s.broker i (s.connection i))
    ?_ ?_ h
  · exact ⟨rfl, rfl, rfl, fun h => (by cases h)⟩
  · intro tr s a s' e x hrun _ hnext hinv
    exact sessionInv_step hrun hnext hinv

/-- In every run of the server every connection follows the protocol `session`, and the session
knows whether the client is authenticated and which subscription it holds. -/
theorem session_conforms {tr : List (Event n)} {s : State n}
    (h : (machine n capacity hcap apiKey).Run tr s) (i : Nat) :
    ∃ x, (session apiKey).run (sessionTrace i tr) = some x ∧
      x.authenticated = (s.connection i).authenticated ∧
      x.subscription = heldBy (s.connection i) := by
  obtain ⟨x, hx, hinv⟩ := sessionInv_of_run h i
  exact ⟨x, hx, hinv.authenticated, hinv.subscription⟩

end

/-- `session_conforms` on a client that subscribes, publishes and gets its own message: the session
has read the frame and holds the subscription. -/
theorem session_conforms_publishAndReceive :
    ∃ tr s, (machine 1 4 (by decide) none).Run tr s ∧
      .frame 0 (publishArg [97, 98]).message ∈ sessionTrace 0 tr ∧
      ∃ x, (session none).run (sessionTrace 0 tr) = some x ∧
        x.authenticated = (s.connection 0).authenticated ∧
        x.subscription = heldBy (s.connection 0) := by
  obtain ⟨tr, s, hrun, hp⟩ := Machine.run_of_exec (M := machine 1 4 (by decide) none)
    (publishAndReceive [97, 98]) (fun tr _ => decide
      (.frame 0 (publishArg [97, 98]).message ∈ sessionTrace 0 tr)) (by decide +kernel)
  exact ⟨tr, s, hrun, of_decide_eq_true hp, session_conforms hrun 0⟩

/-! ### The holder of a subscription -/

/-- The session knows what its events say. -/
theorem heldIn_of_session {apiKey : Option CString} {es : List SessionEvent} {x : Session}
    (h : (session apiKey).run es = some x) : x.subscription = heldIn es := by
  refine Monitor.run_induction (I := fun es x => x.subscription = heldIn es) rfl ?_ h
  intro es x e y _ hx hstep
  have hheld : heldIn (es ++ [e]) = heldAfter x.subscription e := by
    rw [heldIn, List.foldl_append, hx]
    rfl
  rw [hheld]
  have hstep : Session.step apiKey x e = some y := hstep
  cases e with
  | command buffer =>
      simp only [Session.step, Option.ite_none_right_eq_some, Option.some.injEq] at hstep
      obtain ⟨-, rfl⟩ := hstep
      show (Session.command apiKey x buffer).subscription = x.subscription
      unfold Session.command
      split <;> rfl
  | subscribed k =>
      simp only [Session.step] at hstep
      split at hstep
      · rw [← Option.some.inj hstep]
        rfl
      · cases hstep
  | _ =>
      simp only [Session.step, Option.ite_none_right_eq_some, Option.some.injEq] at hstep
      rw [← hstep.2]
      rfl

/-- A connection writes a frame of a subscription only while it holds the subscription, by the
events so far, and at that time no other connection holds it. -/
theorem frame_of_holder {capacity : UInt64} {hcap : capacity ≠ 0} {apiKey : Option CString}
    {pre post : List (Event n)} {s : State n} {i k : Nat} {msg : MessageBroker.Message}
    (h : (machine n capacity hcap apiKey).Run (pre ++ .frame i k msg :: post) s) (j : Nat) :
    heldIn (sessionTrace j pre) = some k ↔ j = i := by
  obtain ⟨s₁, a, s₂, hpre, -, hnext⟩ := h.step_of_event
  have hheld : ∀ j, heldIn (sessionTrace j pre) = holders s₁ j := by
    intro j
    obtain ⟨x, hx, hinv⟩ := sessionInv_of_run hpre j
    rw [← heldIn_of_session hx, hinv.subscription, holders]
  have hi : heldIn (sessionTrace i pre) = some k := by
    obtain ⟨x, hx, hinv⟩ := sessionInv_of_run hpre i
    obtain ⟨y, hy, -⟩ := sessionInv_step hpre hnext hinv
    rw [← heldIn_of_session hx]
    simp only [Option.bind_some, ofServer, if_pos, Monitor.stepView, session, Session.step,
      Option.ite_none_right_eq_some] at hy
    exact hy.1
  constructor
  · intro hj
    rw [hheld] at hi hj
    exact (ownershipInv_of_run hpre).single.unique j i k hj hi
  · rintro rfl
    exact hi

/-- `frame_of_holder` on a run of one connection. -/
theorem frame_of_holder_publishAndReceive :
    ∃ pre post s, (machine 1 4 (by decide) none).Run
        (pre ++ .frame 0 0 (publishArg [97, 98]).message :: post) s ∧
      heldIn (sessionTrace 0 pre) = some 0 ∧ heldIn (sessionTrace 1 pre) ≠ some 0 := by
  obtain ⟨tr, s, hrun, hp⟩ := Machine.run_of_exec (M := machine 1 4 (by decide) none)
    (publishAndReceive [97, 98]) (fun tr _ => decide
      (.frame 0 0 (publishArg [97, 98]).message ∈ tr)) (by decide +kernel)
  obtain ⟨pre, post, rfl⟩ := List.append_of_mem (of_decide_eq_true hp)
  refine ⟨pre, post, s, hrun, (frame_of_holder hrun 0).mpr rfl, fun h => ?_⟩
  exact absurd ((frame_of_holder hrun 1).mp h) (by decide)

end

end Miez.Proofs.NetworkServer
