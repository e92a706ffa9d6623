import Miez.Proofs.ThreadPool.Wait

/-!
# `Miez.Proofs.ThreadPool.Order`: one dispatcher calls the tasks in the order of the queue

With one dispatcher the tasks called so far, the task in its hand and the tasks in the queue are,
in this order, the tasks ever enqueued (`queue_order`). A task whose submit has returned 0 is in the
queue or has left it (`enqueued_of_submitted`).
-/

set_option autoImplicit false

namespace Miez.Proofs.ThreadPool

open Miez.Lib
open Miez.ThreadPool

section
variable {n : Nat} {τ : Type}

/-- The task that a dispatcher has taken out of the queue and not called. -/
def takenTask : DispatcherPc τ → Option (PoolTask τ)
  | .incrInFlight task | .callFunction task => some task
  | _ => none

/-- A dispatcher takes the first task of the queue and calls the task in its hand. -/
theorem dispatcherFunction_order {d : Fin n} {sh sh' : Shared n τ} {pc pc' : DispatcherPc τ}
    {e : Option (Event n τ)} (h : dispatcherFunction d sh pc = some (sh', pc', e)) :
    (e.bind calledTask).toList ++ ((takenTask pc').toList ++ sh'.queue)
      = (takenTask pc).toList ++ sh.queue := by
  cases pc with
  | dequeue =>
      cases hq : sh.queue with
      | nil =>
          simp only [dispatcherFunction, hq, GenericQueueSyn.dequeue_nil, Option.some.injEq,
            Prod.mk.injEq] at h
          obtain ⟨rfl, rfl, rfl⟩ := h
          simp [takenTask]
      | cons task rest =>
          simp only [dispatcherFunction, hq, GenericQueueSyn.dequeue_cons, Option.some.injEq,
            Prod.mk.injEq] at h
          obtain ⟨rfl, rfl, rfl⟩ := h
          simp [takenTask]
  | _ => grind [dispatcherFunction, takenTask, Shared.lock, Shared.unlock, calledTask]

/-- The tasks that one dispatcher has called, the task in its hand and the tasks in the queue are
the tasks ever enqueued, in this order. -/
theorem queue_order {K : State 1 τ → Action 1 τ → Prop} {tr : List (Event 1 τ)} {s : State 1 τ}
    (h : (machine 1 τ).RunIf K tr s) :
    calledTasks tr ++ ((takenTask (s.dispatcher 0)).toList ++ s.shared.queue)
      = enqueuedTasks tr := by
  refine h.induction (I := fun tr s => calledTasks tr ++
    ((takenTask (s.dispatcher 0)).toList ++ s.shared.queue) = enqueuedTasks tr) rfl ?_
  intro tr s a s' e _ hinv _ hnext
  rcases next_cases hnext with ⟨d, sh, pc, -, hf, rfl⟩ | ⟨c, move, sh, pc, -, hf, rfl⟩
  · obtain rfl : d = 0 := Subsingleton.elim d 0
    have horder := dispatcherFunction_order hf
    simp only [calledTasks, enqueuedTasks, filterMap_append_toList, dispatcherFunction_enqueued hf,
      Option.toList_none, List.append_nil, Function.update_self]
    rw [List.append_assoc, horder]
    exact hinv
  · obtain ⟨hqueue, -, hcalled, -⟩ := clientFunction_tasks hf
    simp only [calledTasks, enqueuedTasks, filterMap_append_toList, hcalled, Option.toList_none,
      List.append_nil, hqueue]
    rw [← List.append_assoc, ← List.append_assoc, List.append_assoc _ _ s.shared.queue]
    exact congrArg (· ++ (e.bind enqueuedTask).toList) hinv

/-- One dispatcher calls the tasks in the order in which they were enqueued. -/
theorem calledTasks_sublist {K : State 1 τ → Action 1 τ → Prop} {tr : List (Event 1 τ)}
    {s : State 1 τ} (h : (machine 1 τ).RunIf K tr s) :
    List.Sublist (calledTasks tr) (enqueuedTasks tr) := by
  rw [← queue_order h]
  exact List.sublist_append_left _ _

/-- A task whose submit has returned 0 was enqueued. -/
theorem enqueued_of_submitted {K : State n τ → Action n τ → Prop} {tr : List (Event n τ)}
    {s : State n τ} (h : (machine n τ).RunIf K tr s) {c : Nat} {task : PoolTask τ}
    (htask : .submitted c task ∈ tr) : task ∈ enqueuedTasks tr := by
  refine (h.induction (I := fun tr s =>
    (∀ c task, submittingTask (s.client c) = some task → task ∈ enqueuedTasks tr) ∧
    ∀ c task, .submitted c task ∈ tr → task ∈ enqueuedTasks tr) ?_ ?_).2 c task htask
  · constructor <;> simp [machine, init, submittingTask]
  · intro tr s a s' e _ hinv _ hnext
    obtain ⟨hsubmitting, hsubmitted⟩ := hinv
    rcases next_cases hnext with ⟨d, sh, pc, -, hf, rfl⟩ | ⟨c, move, sh, pc, -, hf, rfl⟩
    · refine ⟨fun c task hc => mem_enqueuedTasks_append (hsubmitting c task hc), ?_⟩
      intro c task hc
      rcases List.mem_append.mp hc with hc | hc
      · exact mem_enqueuedTasks_append (hsubmitted c task hc)
      · rcases dispatcherFunction_event hf _ (Option.mem_toList.mp hc) with ⟨_, hx⟩ | ⟨_, hx⟩ <;>
          cases hx
    · obtain ⟨hsub, hret⟩ := clientFunction_submitting hf
      have henq : enqueuedTasks (tr ++ e.toList) =
          enqueuedTasks tr ++ (e.bind enqueuedTask).toList :=
        filterMap_append_toList enqueuedTask tr e
      constructor
      · refine forall_update (P := fun _ pc => ∀ task, submittingTask pc = some task →
          task ∈ enqueuedTasks (tr ++ e.toList)) ?_ ?_
        · intro task htask
          rcases hsub task htask with hold | hnew
          · exact mem_enqueuedTasks_append (hsubmitting c task hold)
          · rw [henq, hnew]
            exact List.mem_append_right _ (List.mem_singleton_self task)
        · intro c' _ task htask
          exact mem_enqueuedTasks_append (hsubmitting c' task htask)
      · intro c' task hc'
        rcases List.mem_append.mp hc' with hc' | hc'
        · exact mem_enqueuedTasks_append (hsubmitted c' task hc')
        · exact mem_enqueuedTasks_append
            (hsubmitting c task (hret c' task (Option.mem_toList.mp hc')))

end

end Miez.Proofs.ThreadPool
