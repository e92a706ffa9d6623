import Miez.Proofs.MessageBroker.Delivery
import Miez.Proofs.ThreadPool.Wait

/-!
# `Miez.Proofs.MessageBroker.Barrier`: what `message_broker_wait` waits for

`message_broker_wait` is `thread_pool_wait` on the pool of the publisher tasks. The barrier of
the pool holds in the runs in which no waiter reads `_in_flight` while a dispatcher is between
its dequeue and its increment. `poolRunIf_of_run` finds such a run of the pool inside the run of
the broker. When the wait returns, the tasks of the earlier publishes have returned, so their
messages are in the inboxes (`wait_barrier`).
-/

set_option autoImplicit false

namespace Miez.Proofs.MessageBroker

open Miez.Lib
open Miez.MessageBroker
open Miez.ThreadPool (Tid PoolTask)
open Miez.Proofs.ThreadPool

section
variable {n : Nat} {capacity : UInt64} {hcap : capacity ≠ 0}

/-- The condition on a step of the broker for the barrier: no allocation fails, and a step of a
waiter inside the pool meets the condition of the pool's barrier. -/
def BarrierCondition (s : State n) (a : Action n) : Prop :=
  AllocationsSucceed s a ∧
    match a with
    | .pool c move => NoTaskInWindow s.pool (.client c move)
    | _ => True

instance (s : State n) (a : Action n) : Decidable (BarrierCondition s a) :=
  match a with
  | .pool c move => inferInstanceAs (Decidable (AllocationsSucceed s (.pool c move) ∧
      NoTaskInWindow s.pool (.client c move)))
  | .dispatcher d => inferInstanceAs (Decidable (AllocationsSucceed s (.dispatcher d) ∧ True))
  | .submit c => inferInstanceAs (Decidable (AllocationsSucceed s (.submit c) ∧ True))
  | .wait c => inferInstanceAs (Decidable (AllocationsSucceed s (.wait c) ∧ True))
  | .thread t move => inferInstanceAs (Decidable (AllocationsSucceed s (.thread t move) ∧ True))

/-- The steps of the pool meet the condition of the pool's barrier. -/
theorem BarrierCondition.noTaskInWindow {s : State n} {a : Action n}
    (h : BarrierCondition s a) {b : ThreadPool.Action n PublisherTaskArg} (hb : PoolAction a b) :
    NoTaskInWindow s.pool b := by
  cases a with
  | dispatcher d =>
      obtain rfl := hb
      trivial
  | submit c =>
      obtain ⟨arg, rfl⟩ := hb
      trivial
  | wait c =>
      obtain rfl := hb
      trivial
  | pool c move =>
      obtain rfl := hb
      exact h.2
  | thread t move => exact hb.elim

/-- The pool inside a run that meets the condition has a run that meets its own condition. -/
theorem poolRunIf_of_run {tr : List (Event n)} {s : State n}
    (h : (machine n capacity hcap).RunIf BarrierCondition tr s) :
    (ThreadPool.machine n PublisherTaskArg).RunIf NoTaskInWindow (poolTrace tr) s.pool := by
  refine h.map State.pool poolEvent rfl ?_
  intro tr s a s' e hrun hK hnext
  have hrun' := hrun.mono fun _ _ (h : BarrierCondition _ _) => h.1
  rcases next_cases hnext with ⟨b, pool, t, pc, e', hb, hstep, rfl, -, -, rfl⟩ |
      ⟨t, move, sh, pc, rfl, hf, rfl⟩ | ⟨t, rfl, rfl⟩
  · refine Or.inl ⟨b, hK.noTaskInWindow hb, ?_⟩
    rw [poolEvent_map]
    exact hstep.next
  · have hstep := threadFunction_step hf (by rintro rfl; exact hK.1) (by rintro rfl; exact hK.1)
      (onFailurePath_of_run hrun' t)
    exact Or.inr ⟨rfl, hstep.publishStep.poolEvent_eq_none⟩
  · exact Or.inr ⟨rfl, rfl⟩

/-- An order of two events of the pool is an order of what the pool has shown. -/
theorem before_poolTrace {tr : List (Event n)} {a b : ThreadPool.Event n PublisherTaskArg}
    (h : Before tr (.pool a) (.pool b)) : Before (poolTrace tr) a b :=
  List.Sublist.filterMap poolEvent h

/-- A task that has returned shows its return. -/
theorem returned_of_mem {tr : List (Event n)} {task : PoolTask PublisherTaskArg}
    (h : task ∈ returnedTasks (poolTrace tr)) : ∃ d, .pool (.returned d task) ∈ tr := by
  obtain ⟨e, he, htask⟩ := List.mem_filterMap.mp h
  obtain ⟨e', he', hpool⟩ := List.mem_filterMap.mp he
  cases e' with
  | pool e₁ =>
      obtain rfl : e₁ = e := Option.some.inj hpool
      cases e₁ with
      | returned d task' =>
          obtain rfl : task' = task := Option.some.inj htask
          exact ⟨d, he'⟩
      | _ => cases htask
  | _ => cases hpool

/-- The two barriers, for every `size_t n` of dispatchers. In a run whose steps meet the
condition, when `thread_pool_wait` returns, every task whose submit returned 0 before the wait
was called has returned. When `message_broker_wait` returns, with fewer than 2^64 subscribes so
far, the message of every publish that returned 0 before the wait was called has been put into
the inboxes of the subscriptions that were there before the publish and still are. -/
theorem wait_barrier (n : UInt64) :
    (∀ {τ : Type} {pre : List (ThreadPool.Event n.toNat τ)} {c c' : Nat} {task : PoolTask τ}
      {s : ThreadPool.State n.toNat τ},
      (ThreadPool.machine n.toNat τ).RunIf NoTaskInWindow (pre ++ [.waitRet c]) s →
      Before pre (.submitted c' task) (.waitCall c) → task ∈ returnedTasks pre) ∧
    (∀ {capacity : UInt64} {hcap : capacity ≠ 0} {pre : List (Event n.toNat)} {c c' : Nat}
      {task : PoolTask PublisherTaskArg} {s : State n.toNat},
      (machine n.toNat capacity hcap).RunIf BarrierCondition (pre ++ [.pool (.waitRet c)]) s →
      s.shared.nextSubscribe < 2 ^ 64 →
      Before pre (.pool (.submitted c' task)) (.pool (.waitCall c)) →
      ∀ t k x c'', Before pre (.subscribed t k x task.arg.channelName)
          (.publishCall c'' task.arg) →
        (∀ t', .unsubscribeCall t' k ∉ pre) → task.arg.message ∈ puts pre x) := by
  have hn : n.toNat < 2 ^ 64 := n.toNat_lt
  constructor
  · intro τ pre c c' task s h hb
    exact waitRet_returned hn h hb
  · intro capacity hcap pre c c' task s h hbound hb t k x c'' hx hnot
    have hrun := h.mono fun _ _ (h : BarrierCondition _ _) => h.1
    have hpool : (ThreadPool.machine n.toNat PublisherTaskArg).RunIf NoTaskInWindow
        (poolTrace pre ++ [.waitRet c]) s.pool := by
      have hpool := poolRunIf_of_run h
      rwa [poolTrace, List.filterMap_append] at hpool
    have htask := waitRet_returned hn hpool (before_poolTrace hb)
    -- The task has returned, so its message has been put into the inbox.
    obtain ⟨d, hret⟩ := returned_of_mem htask
    obtain ⟨pre₁, post₁, hpre⟩ := List.append_of_mem hret
    have hx' : SubscribedBefore (pre ++ [.pool (.waitRet c)]) x task.arg :=
      ⟨t, k, c'', hx.of_sublist (List.sublist_append_left _ _)⟩
    have hsub : pre₁ ⊆ pre ++ [.pool (.waitRet c)] := by
      rw [hpre, List.append_assoc]
      exact List.subset_append_left _ _
    have hunsub := not_unsubscribing hrun hsub (List.mem_append_left _ hx.mem_left)
      fun t' hcall => hnot t' (by rw [hpre]; exact List.mem_append_left _ hcall)
    have hmem := put_of_returned hrun hbound pre₁ d task (post₁ ++ [.pool (.waitRet c)])
      (by rw [hpre]; simp) x hx' hunsub
    -- The return of the wait puts nothing into an inbox.
    rw [puts, List.filterMap_append, List.mem_append] at hmem
    exact hmem.resolve_right (by simp [putOf])

/-- A client subscribes, another one publishes, and after the task has returned the publisher
waits. -/
theorem wait_barrier_one_publish :
    ∃ (pre : List (Event (1 : UInt64).toNat)) (s : State (1 : UInt64).toNat) (msg : Message),
      (machine (1 : UInt64).toNat 1 (by decide)).RunIf BarrierCondition
        (pre ++ [.pool (.waitRet 1)]) s ∧ msg.content.bytes = [49] ∧ msg ∈ puts pre 0 := by
  let name : CString := ⟨[99], by decide⟩
  let arg : PublisherTaskArg := ⟨1, name, ⟨[49], by decide⟩, 0⟩
  let d : Fin (1 : UInt64).toNat := ⟨0, by decide⟩
  let pre : List (Event (1 : UInt64).toNat) :=
    [.subscribeCall (.client 0) 1 name, .subscribed (.client 0) 0 0 name, .publishCall 1 arg,
      .pool (.submitCall 1 arg), .pool (.enqueued ⟨0, arg⟩), .pool (.submitted 1 ⟨0, arg⟩),
      .pool (.called d ⟨0, arg⟩), .fanout (.dispatcher d) 0 arg,
      .put (.dispatcher d) 0 arg.message, .pool (.returned d ⟨0, arg⟩), .pool (.waitCall 1)]
  obtain ⟨tr, s, hrun, htest⟩ := Machine.runIf_of_exec
    (M := machine (1 : UInt64).toNat 1 (by decide)) (K := BarrierCondition)
    (subscribeSchedule 0 name true ++ publishSchedule 1 name arg.content ++ taskSchedule d 1
      ++ .wait 1 :: List.replicate 4 (.pool 1 .go))
    (fun tr s => decide (tr = pre ++ [.pool (.waitRet 1)] ∧ s.shared.nextSubscribe = 1))
    (by decide +kernel)
  obtain ⟨rfl, hsubscribe⟩ := of_decide_eq_true htest
  refine ⟨pre, s, arg.message, hrun, rfl, ?_⟩
  exact (wait_barrier 1).2 hrun (by rw [hsubscribe]; decide)
    (by decide +kernel : Before pre (.pool (.submitted 1 ⟨0, arg⟩)) (.pool (.waitCall 1)))
    (.client 0) 0 0 1 (by decide +kernel) (by intro t'; simp [pre])

end

end Miez.Proofs.MessageBroker
