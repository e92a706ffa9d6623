import Miez.Proofs.ThreadPool.Steps

/-!
# `Miez.Proofs.ThreadPool.Conservation`: no task is lost or run twice

The tasks ever enqueued by `thread_pool_submit` are, in every state of a run, the disjoint
union of the tasks in the queue, the tasks a dispatcher holds and the tasks whose function
has returned. The equation is between multisets (`tasksInv_of_run`). `CallsInv` is the same
for the calls: the functions called are the functions running now and the functions returned.
Every task is an allocation of its own, so the tasks ever enqueued are pairwise different
(`enqueuedTasks_nodup`), and so no function is called twice.

`_in_flight` is a 64-bit counter that wraps. `CountInv` says that it is the number of
dispatchers between the increment and the decrement, which is at most the number of
dispatchers, and `n_threads` is a `size_t`. So the counter never wraps.

`thread_pool_shutdown` returns after it has joined every dispatcher (`JoinInv`). An exited
dispatcher holds no task and takes no step.
-/

set_option autoImplicit false

namespace Miez.Proofs.ThreadPool

open Miez.Lib
open Miez.ThreadPool

section
variable {n : Nat} {τ : Type}

/-! ### The tasks in the events of a run -/

/-- The task that the event puts into the queue. -/
def enqueuedTask : Event n τ → Option (PoolTask τ)
  | .enqueued task => some task
  | _ => none

/-- The task whose function the event calls. -/
def calledTask : Event n τ → Option (PoolTask τ)
  | .called _ task => some task
  | _ => none

/-- The task whose function returns with the event. -/
def returnedTask : Event n τ → Option (PoolTask τ)
  | .returned _ task => some task
  | _ => none

/-- The tasks enqueued so far, in the order of the queue operations. -/
def enqueuedTasks (tr : List (Event n τ)) : List (PoolTask τ) := tr.filterMap enqueuedTask

/-- The tasks whose function has been called, one entry for each call. -/
def calledTasks (tr : List (Event n τ)) : List (PoolTask τ) := tr.filterMap calledTask

/-- The tasks whose function has returned, one entry for each return. -/
def returnedTasks (tr : List (Event n τ)) : List (PoolTask τ) := tr.filterMap returnedTask

/-- The task a dispatcher has taken out of the queue and not finished. -/
def held : DispatcherPc τ → Multiset (PoolTask τ)
  | .incrInFlight task | .callFunction task | .running task => {task}
  | _ => 0

/-- The task whose function a dispatcher is running. -/
def runningTask : DispatcherPc τ → Multiset (PoolTask τ)
  | .running task => {task}
  | _ => 0

/-- A dispatcher moves a task from the queue into its hand, and from its hand to the
returned ones. -/
theorem dispatcherFunction_tasks {d : Fin n} {sh sh' : Shared n τ} {pc pc' : DispatcherPc τ}
    {e : Option (Event n τ)} (h : dispatcherFunction d sh pc = some (sh', pc', e)) :
    (sh'.queue : Multiset (PoolTask τ)) + held pc'
        + ((e.bind returnedTask).toList : Multiset (PoolTask τ))
      = sh.queue + held pc := by
  cases pc with
  | dequeue =>
      cases hq : sh.queue with
      | nil =>
          simp only [dispatcherFunction, hq, GenericQueueSyn.dequeue_nil, Option.some.injEq,
            Prod.mk.injEq] at h
          obtain ⟨rfl, rfl, rfl⟩ := h
          simp [held]
      | cons task rest =>
          simp only [dispatcherFunction, hq, GenericQueueSyn.dequeue_cons, Option.some.injEq,
            Prod.mk.injEq] at h
          obtain ⟨rfl, rfl, rfl⟩ := h
          simp only [held, Option.bind_none, Option.toList_none, Multiset.coe_nil, add_zero]
          rw [← Multiset.cons_coe, ← Multiset.singleton_add, add_comm]
  | running task =>
      simp only [dispatcherFunction, Option.some.injEq, Prod.mk.injEq] at h
      obtain ⟨rfl, rfl, rfl⟩ := h
      simp [held, returnedTask]
  | _ =>
      grind [dispatcherFunction, held, Shared.lock, Shared.unlock, returnedTask,
        Multiset.coe_nil]

/-- A call starts to run, and a return ends a run. -/
theorem dispatcherFunction_calls {d : Fin n} {sh sh' : Shared n τ} {pc pc' : DispatcherPc τ}
    {e : Option (Event n τ)} (h : dispatcherFunction d sh pc = some (sh', pc', e)) :
    runningTask pc' + ((e.bind returnedTask).toList : Multiset (PoolTask τ))
      = runningTask pc + ((e.bind calledTask).toList : Multiset (PoolTask τ)) := by
  cases pc with
  | callFunction task =>
      simp only [dispatcherFunction, Option.some.injEq, Prod.mk.injEq] at h
      obtain ⟨rfl, rfl, rfl⟩ := h
      simp [runningTask, returnedTask, calledTask]
  | running task =>
      simp only [dispatcherFunction, Option.some.injEq, Prod.mk.injEq] at h
      obtain ⟨rfl, rfl, rfl⟩ := h
      simp [runningTask, returnedTask, calledTask]
  | _ => grind [dispatcherFunction, runningTask, Shared.lock, returnedTask, calledTask]

/-- Only clients enqueue. -/
theorem dispatcherFunction_enqueued {d : Fin n} {sh sh' : Shared n τ} {pc pc' : DispatcherPc τ}
    {e : Option (Event n τ)} (h : dispatcherFunction d sh pc = some (sh', pc', e)) :
    e.bind enqueuedTask = none := by
  cases pc <;> grind [dispatcherFunction, Shared.lock, enqueuedTask]

/-- A client appends to the queue what it enqueues. It calls no task and leaves the counter
alone. -/
theorem clientFunction_tasks {c : Nat} {exited : Fin n → Bool} {sh sh' : Shared n τ}
    {pc pc' : ClientPc τ} {move : ClientMove n τ} {e : Option (Event n τ)}
    (h : clientFunction c exited sh pc move = some (sh', pc', e)) :
    sh'.queue = sh.queue ++ (e.bind enqueuedTask).toList ∧ sh'.inFlight = sh.inFlight ∧
      e.bind calledTask = none ∧ e.bind returnedTask = none := by
  cases pc with
  | idle => cases move <;> grind [clientFunction, enqueuedTask, calledTask, returnedTask]
  | submit pc =>
      cases pc <;> cases move <;>
        grind [clientFunction, threadPoolSubmit, Shared.lock, Shared.unlock,
          Shared.signalNewTask, GenericQueueSyn.enqueue, enqueuedTask, calledTask, returnedTask]
  | wait pc =>
      cases pc <;> cases move <;>
        grind [clientFunction, threadPoolWait, Shared.lock, Shared.unlock, enqueuedTask,
          calledTask, returnedTask]
  | shutdown pc =>
      cases pc <;> cases move <;>
        grind [clientFunction, threadPoolShutdown, Shared.lock, Shared.unlock,
          enqueuedTask, calledTask, returnedTask]

/-! ### The two multiset equations -/

/-- Where the enqueued tasks and the calls are. -/
structure TasksInv (tr : List (Event n τ)) (s : State n τ) : Prop where
  tasks : (enqueuedTasks tr : Multiset (PoolTask τ))
    = s.shared.queue + ∑ d, held (s.dispatcher d) + returnedTasks tr
  calls : (calledTasks tr : Multiset (PoolTask τ))
    = ∑ d, runningTask (s.dispatcher d) + returnedTasks tr

/-- A step of a dispatcher keeps the two equations. The entry of the dispatcher that moved is
added on both sides and cancelled. -/
theorem tasksInv_dispatcher {tr : List (Event n τ)} {s : State n τ} {d : Fin n}
    {sh : Shared n τ} {pc : DispatcherPc τ} {e : Option (Event n τ)} (hinv : TasksInv tr s)
    (hf : dispatcherFunction d s.shared (s.dispatcher d) = some (sh, pc, e)) :
    TasksInv (tr ++ e.toList) ⟨sh, Function.update s.dispatcher d pc, s.client⟩ := by
  have henq := dispatcherFunction_enqueued hf
  constructor
  · have hstep := dispatcherFunction_tasks hf
    have hsum := sum_update_add held s.dispatcher d pc
    simp only [enqueuedTasks, returnedTasks, filterMap_append_toList, henq, Option.toList_none,
      List.append_nil, ← Multiset.coe_add]
    refine add_right_cancel (b := held (s.dispatcher d)) ?_
    calc (enqueuedTasks tr : Multiset (PoolTask τ)) + held (s.dispatcher d)
        = (s.shared.queue + held (s.dispatcher d)) + ∑ d, held (s.dispatcher d)
            + returnedTasks tr := by rw [hinv.tasks]; abel
      _ = sh.queue + (∑ d, held (s.dispatcher d) + held pc) + returnedTasks tr
            + ((e.bind returnedTask).toList : Multiset (PoolTask τ)) := by rw [← hstep]; abel
      _ = _ := by rw [← hsum]; simp only [returnedTasks]; abel
  · have hstep := dispatcherFunction_calls hf
    have hsum := sum_update_add runningTask s.dispatcher d pc
    simp only [calledTasks, returnedTasks, filterMap_append_toList, ← Multiset.coe_add]
    refine add_right_cancel (b := runningTask (s.dispatcher d)) ?_
    calc (calledTasks tr : Multiset (PoolTask τ))
          + ((e.bind calledTask).toList : Multiset (PoolTask τ)) + runningTask (s.dispatcher d)
        = (runningTask (s.dispatcher d) + ((e.bind calledTask).toList : Multiset (PoolTask τ)))
            + ∑ d, runningTask (s.dispatcher d) + (returnedTasks tr : Multiset (PoolTask τ)) := by
          rw [hinv.calls]; abel
      _ = (∑ d, runningTask (s.dispatcher d) + runningTask pc)
            + (returnedTasks tr : Multiset (PoolTask τ))
            + ((e.bind returnedTask).toList : Multiset (PoolTask τ)) := by rw [← hstep]; abel
      _ = _ := by rw [← hsum]; simp only [returnedTasks]; abel

/-- A step of a client keeps the two equations: it adds the same task to both sides of the
first one. -/
theorem tasksInv_client {tr : List (Event n τ)} {s : State n τ} {c : Nat}
    {exited : Fin n → Bool} {move : ClientMove n τ} {sh : Shared n τ} {pc : ClientPc τ}
    {e : Option (Event n τ)} (hinv : TasksInv tr s)
    (hf : clientFunction c exited s.shared (s.client c) move = some (sh, pc, e)) :
    TasksInv (tr ++ e.toList) ⟨sh, s.dispatcher, Function.update s.client c pc⟩ := by
  obtain ⟨hqueue, -, hcalled, hreturned⟩ := clientFunction_tasks hf
  constructor
  · have htasks := hinv.tasks
    simp only [enqueuedTasks, returnedTasks, filterMap_append_toList, hreturned, hqueue,
      Option.toList_none, List.append_nil, ← Multiset.coe_add] at htasks ⊢
    rw [htasks]
    abel
  · have hcalls := hinv.calls
    simp only [calledTasks, returnedTasks, filterMap_append_toList, hcalled, hreturned,
      Option.toList_none, List.append_nil] at hcalls ⊢
    exact hcalls

/-- The two equations hold in every state of a run. -/
theorem tasksInv_of_run {K : State n τ → Action n τ → Prop} {tr : List (Event n τ)}
    {s : State n τ} (h : (machine n τ).RunIf K tr s) : TasksInv tr s := by
  refine h.induction ?_ ?_
  · constructor <;>
      simp [machine, init, held, runningTask, enqueuedTasks, calledTasks, returnedTasks]
  · intro tr s a s' e _ hinv _ hnext
    rcases next_cases hnext with ⟨d, sh, pc, -, hf, rfl⟩ | ⟨c, move, sh, pc, -, hf, rfl⟩
    · exact tasksInv_dispatcher hinv hf
    · exact tasksInv_client hinv hf

/-! ### Every task is an allocation of its own -/

/-- What a step of a client does to the number of enqueued tasks: it enqueues the task with
the next identity, or it enqueues nothing. -/
theorem clientFunction_nextTask {c : Nat} {exited : Fin n → Bool} {sh sh' : Shared n τ}
    {pc pc' : ClientPc τ} {move : ClientMove n τ} {e : Option (Event n τ)}
    (h : clientFunction c exited sh pc move = some (sh', pc', e)) :
    (sh'.nextTask = sh.nextTask ∧ e.bind enqueuedTask = none) ∨
    (∃ task, sh'.nextTask = sh.nextTask + 1 ∧ e.bind enqueuedTask = some task ∧
      task.id = sh.nextTask) := by
  cases pc with
  | idle => cases move <;> grind [clientFunction, enqueuedTask]
  | submit pc =>
      cases pc <;> cases move <;>
        grind [clientFunction, threadPoolSubmit, Shared.lock, Shared.unlock,
          Shared.signalNewTask, enqueuedTask]
  | wait pc =>
      cases pc <;> cases move <;>
        grind [clientFunction, threadPoolWait, Shared.lock, Shared.unlock, enqueuedTask]
  | shutdown pc =>
      cases pc <;> cases move <;>
        grind [clientFunction, threadPoolShutdown, Shared.lock, Shared.unlock, enqueuedTask]

/-- A dispatcher enqueues nothing. -/
theorem dispatcherFunction_nextTask {d : Fin n} {sh sh' : Shared n τ} {pc pc' : DispatcherPc τ}
    {e : Option (Event n τ)} (h : dispatcherFunction d sh pc = some (sh', pc', e)) :
    sh'.nextTask = sh.nextTask := by
  cases pc <;> grind [dispatcherFunction, Shared.lock, Shared.unlock, GenericQueueSyn.dequeue]

/-- The identities of the enqueued tasks count up from 0. -/
theorem enqueuedTasks_ids {K : State n τ → Action n τ → Prop} {tr : List (Event n τ)}
    {s : State n τ} (h : (machine n τ).RunIf K tr s) :
    (enqueuedTasks tr).map PoolTask.id = List.range s.shared.nextTask := by
  refine h.induction
    (I := fun tr s => (enqueuedTasks tr).map PoolTask.id = List.range s.shared.nextTask) rfl ?_
  intro tr s a s' e _ hinv _ hnext
  rcases next_cases hnext with ⟨d, sh, pc, -, hf, rfl⟩ | ⟨c, move, sh, pc, -, hf, rfl⟩
  · rw [enqueuedTasks, filterMap_append_of_none (dispatcherFunction_enqueued hf)]
    simpa only [dispatcherFunction_nextTask hf, enqueuedTasks] using hinv
  · rcases clientFunction_nextTask hf with ⟨hnum, he⟩ | ⟨task, hnum, he, hid⟩
    · rw [enqueuedTasks, filterMap_append_of_none he]
      simpa only [hnum, enqueuedTasks] using hinv
    · rw [enqueuedTasks, filterMap_append_of_some he, List.map_append]
      simp only [hnum, List.range_succ, ← hinv, enqueuedTasks, List.map_singleton, hid]

/-- The tasks ever enqueued are pairwise different. -/
theorem enqueuedTasks_nodup {K : State n τ → Action n τ → Prop} {tr : List (Event n τ)}
    {s : State n τ} (h : (machine n τ).RunIf K tr s) : (enqueuedTasks tr).Nodup := by
  have hids := enqueuedTasks_ids h
  exact List.Nodup.of_map PoolTask.id (hids ▸ List.nodup_range)

/-- The tasks whose function has been called are among the tasks ever enqueued. -/
theorem calledTasks_le {K : State n τ → Action n τ → Prop} {tr : List (Event n τ)}
    {s : State n τ} (h : (machine n τ).RunIf K tr s) :
    (calledTasks tr : Multiset (PoolTask τ)) ≤ enqueuedTasks tr := by
  have hinv := tasksInv_of_run h
  have hrun : ∑ d, runningTask (s.dispatcher d) ≤ ∑ d, held (s.dispatcher d) :=
    Finset.sum_le_sum fun d _ => by cases s.dispatcher d <;> simp [runningTask, held]
  rw [hinv.calls, hinv.tasks]
  exact add_le_add (hrun.trans (le_add_self)) le_rfl

/-- No function is called twice. -/
theorem calledTasks_nodup {K : State n τ → Action n τ → Prop} {tr : List (Event n τ)}
    {s : State n τ} (h : (machine n τ).RunIf K tr s) : (calledTasks tr).Nodup := by
  have hnodup : (enqueuedTasks tr : Multiset (PoolTask τ)).Nodup := enqueuedTasks_nodup h
  exact Multiset.coe_nodup.mp (Multiset.nodup_of_le (calledTasks_le h) hnodup)

/-- A called task was enqueued. -/
theorem mem_enqueuedTasks_of_called {K : State n τ → Action n τ → Prop} {tr : List (Event n τ)}
    {s : State n τ} (h : (machine n τ).RunIf K tr s) {task : PoolTask τ}
    (htask : task ∈ calledTasks tr) : task ∈ enqueuedTasks tr :=
  Multiset.mem_coe.mp (Multiset.mem_of_le (calledTasks_le h) (Multiset.mem_coe.mpr htask))

/-- A returned task was enqueued. -/
theorem mem_enqueuedTasks_of_returned {K : State n τ → Action n τ → Prop}
    {tr : List (Event n τ)} {s : State n τ} (h : (machine n τ).RunIf K tr s)
    {task : PoolTask τ} (htask : task ∈ returnedTasks tr) : task ∈ enqueuedTasks tr := by
  rw [← Multiset.mem_coe, (tasksInv_of_run h).tasks, Multiset.mem_add]
  exact Or.inr (Multiset.mem_coe.mpr htask)

/-- A running task was called. -/
theorem mem_calledTasks_of_running {K : State n τ → Action n τ → Prop} {tr : List (Event n τ)}
    {s : State n τ} (h : (machine n τ).RunIf K tr s) {d : Fin n} {task : PoolTask τ}
    (hd : s.dispatcher d = .running task) : task ∈ calledTasks tr := by
  rw [← Multiset.mem_coe, (tasksInv_of_run h).calls, Multiset.mem_add]
  refine Or.inl (Multiset.mem_sum.mpr ⟨d, Finset.mem_univ d, ?_⟩)
  rw [hd]
  exact Multiset.mem_singleton_self task

/-- Two dispatchers do not run the same task. -/
theorem running_unique {K : State n τ → Action n τ → Prop} {tr : List (Event n τ)}
    {s : State n τ} (h : (machine n τ).RunIf K tr s) {d d' : Fin n} {task : PoolTask τ}
    (hd : s.dispatcher d = .running task) (hd' : s.dispatcher d' = .running task) : d = d' := by
  by_contra hne
  have hle : ({task} + {task} : Multiset (PoolTask τ)) ≤ ∑ d, runningTask (s.dispatcher d) :=
    calc ({task} + {task} : Multiset (PoolTask τ))
        = ∑ d ∈ {d, d'}, runningTask (s.dispatcher d) := by
          rw [Finset.sum_pair hne, hd, hd']
          rfl
      _ ≤ ∑ d, runningTask (s.dispatcher d) :=
          Finset.sum_le_sum_of_subset (Finset.subset_univ _)
  have hnodup : (calledTasks tr : Multiset (PoolTask τ)).Nodup := calledTasks_nodup h
  rw [(tasksInv_of_run h).calls] at hnodup
  have htwice := Multiset.nodup_of_le (hle.trans (Multiset.le_add_right _ _)) hnodup
  simp at htwice

/-! ### The counter -/

/-- The dispatcher is between the increment of `_in_flight` and its decrement. -/
def counted : DispatcherPc τ → Bool
  | .callFunction _ | .running _ | .decrInFlight => true
  | _ => false

/-- The number of dispatchers between the increment and the decrement. -/
def countedDispatchers (s : State n τ) : Nat := ∑ d, (counted (s.dispatcher d)).toNat

/-- What a step of a dispatcher does to `_in_flight`. -/
theorem dispatcherFunction_inFlight {d : Fin n} {sh sh' : Shared n τ} {pc pc' : DispatcherPc τ}
    {e : Option (Event n τ)} (h : dispatcherFunction d sh pc = some (sh', pc', e)) :
    (sh'.inFlight = sh.inFlight ∧ counted pc' = counted pc) ∨
    (sh'.inFlight = sh.inFlight + 1 ∧ counted pc = false ∧ counted pc' = true) ∨
    (sh'.inFlight = sh.inFlight - 1 ∧ counted pc = true ∧ counted pc' = false) := by
  cases pc <;>
    grind [dispatcherFunction, counted, Shared.lock, Shared.unlock, GenericQueueSyn.dequeue]

/-- At most every dispatcher is counted. -/
theorem countedDispatchers_le (s : State n τ) : countedDispatchers s ≤ n := by
  calc countedDispatchers s ≤ ∑ _d : Fin n, 1 :=
        Finset.sum_le_sum fun d _ => Bool.toNat_le _
    _ = n := by simp

/-- `_in_flight` is the number of dispatchers between the increment and the decrement. The
bound on `n` is the range of `size_t n_threads`: the sum never reaches the modulus. -/
theorem inFlight_of_run {K : State n τ → Action n τ → Prop} (hn : n < 2 ^ 64)
    {tr : List (Event n τ)} {s : State n τ} (h : (machine n τ).RunIf K tr s) :
    s.shared.inFlight.toNat = countedDispatchers s := by
  refine h.induction (I := fun _ s => s.shared.inFlight.toNat = countedDispatchers s) ?_ ?_
  · simp [machine, init, countedDispatchers, counted]
  · intro tr s a s' e _ hinv _ hnext
    have hle := countedDispatchers_le s'
    rcases next_cases hnext with ⟨d, sh, pc, -, hf, rfl⟩ | ⟨c, move, sh, pc, -, hf, rfl⟩
    · have hsum := sum_update_add (fun pc => (counted pc).toNat) s.dispatcher d pc
      simp only [countedDispatchers] at hinv hle ⊢
      rcases dispatcherFunction_inFlight hf with ⟨hsame, hc⟩ | ⟨hinc, hold, hnew⟩ |
          ⟨hdec, hold, hnew⟩
      · rw [hc] at hsum
        rw [hsame, hinv]
        omega
      · rw [hold, hnew] at hsum
        simp only [Bool.toNat_false, Bool.toNat_true] at hsum
        have hlt : s.shared.inFlight.toNat + 1 < 2 ^ 64 := by omega
        rw [hinc, UInt64.toNat_add, UInt64.toNat_one, Nat.mod_eq_of_lt hlt]
        omega
      · rw [hold, hnew] at hsum
        simp only [Bool.toNat_false, Bool.toNat_true] at hsum
        have hle1 : (1 : UInt64) ≤ s.shared.inFlight := by
          rw [UInt64.le_iff_toNat_le, UInt64.toNat_one]
          omega
        rw [hdec, UInt64.toNat_sub_of_le _ _ hle1, UInt64.toNat_one]
        omega
    · obtain ⟨-, hsame, -, -⟩ := clientFunction_tasks hf
      simpa only [countedDispatchers, hsame] using hinv

/-! ### After the shutdown -/

/-- A dispatcher that has returned takes no step. -/
theorem dispatcherFunction_exited {d : Fin n} {sh sh' : Shared n τ} {pc pc' : DispatcherPc τ}
    {e : Option (Event n τ)} (h : dispatcherFunction d sh pc = some (sh', pc', e)) :
    pc ≠ .exited := by
  rintro rfl
  simp [dispatcherFunction] at h

/-- What a step of a client does to the join loop of the shutdown. A client at `join i` has
seen the dispatchers before `i` exit, and the shutdown returns after the last one. -/
theorem clientFunction_join {c : Nat} {exited : Fin n → Bool} {sh sh' : Shared n τ}
    {pc pc' : ClientPc τ} {move : ClientMove n τ} {e : Option (Event n τ)}
    (h : clientFunction c exited sh pc move = some (sh', pc', e))
    (hpc : ∀ i, pc = .shutdown (.join i) → ∀ d : Fin n, d.val < i → exited d = true) :
    (∀ i, pc' = .shutdown (.join i) → ∀ d : Fin n, d.val < i → exited d = true) ∧
    (∀ c', e = some (.shutdownRet c') → ∀ d : Fin n, exited d = true) := by
  cases pc with
  | idle => cases move <;> grind [clientFunction]
  | submit pc =>
      cases pc <;> cases move <;>
        grind [clientFunction, threadPoolSubmit, Shared.lock, Shared.signalNewTask]
  | wait pc => cases pc <;> cases move <;> grind [clientFunction, threadPoolWait, Shared.lock]
  | shutdown pc =>
      cases pc <;> cases move <;> grind [clientFunction, threadPoolShutdown, Shared.lock]

/-- Only a client's step shows the return of the shutdown. -/
theorem dispatcherFunction_shutdownRet {d : Fin n} {sh sh' : Shared n τ}
    {pc pc' : DispatcherPc τ} {e : Option (Event n τ)}
    (h : dispatcherFunction d sh pc = some (sh', pc', e)) (c : Nat) :
    e ≠ some (.shutdownRet c) := by
  cases pc <;> grind [dispatcherFunction, Shared.lock]

/-- Which dispatchers have exited, as far as the join loop and its return show. -/
structure JoinInv (tr : List (Event n τ)) (s : State n τ) : Prop where
  joined : ∀ c i, s.client c = .shutdown (.join i) → ∀ d : Fin n, d.val < i →
    (s.dispatcher d).isExited = true
  ret : ∀ c, .shutdownRet c ∈ tr → ∀ d, (s.dispatcher d).isExited = true

/-- A dispatcher that has exited stays so. -/
theorem isExited_update {s : State n τ} {d : Fin n} {sh : Shared n τ} {pc : DispatcherPc τ}
    {e : Option (Event n τ)}
    (hf : dispatcherFunction d s.shared (s.dispatcher d) = some (sh, pc, e)) (d' : Fin n)
    (h : (s.dispatcher d').isExited = true) :
    (Function.update s.dispatcher d pc d').isExited = true := by
  by_cases hd : d' = d
  · subst hd
    exact absurd (by cases hpc : s.dispatcher d' <;> simp_all [DispatcherPc.isExited])
      (dispatcherFunction_exited hf)
  · rwa [Function.update_of_ne hd]

/-- `JoinInv` holds in every state of a run. -/
theorem joinInv_of_run {K : State n τ → Action n τ → Prop} {tr : List (Event n τ)}
    {s : State n τ} (h : (machine n τ).RunIf K tr s) : JoinInv tr s := by
  refine h.induction ?_ ?_
  · constructor <;> simp [machine, init]
  · intro tr s a s' e _ hinv _ hnext
    rcases next_cases hnext with ⟨d, sh, pc, -, hf, rfl⟩ | ⟨c, move, sh, pc, -, hf, rfl⟩
    · constructor
      · intro c i hc d' hd'
        exact isExited_update hf d' (hinv.joined c i hc d' hd')
      · intro c hc d'
        have hmem : Event.shutdownRet c ∈ tr := by
          rcases List.mem_append.mp hc with hc | hc
          · exact hc
          · exact absurd (by simpa using hc) (dispatcherFunction_shutdownRet hf c)
        exact isExited_update hf d' (hinv.ret c hmem d')
    · obtain ⟨hjoin, hret⟩ := clientFunction_join hf (hinv.joined c)
      constructor
      · intro c' i
        by_cases hc : c' = c
        · subst hc
          simpa using hjoin i
        · simpa [Function.update_of_ne hc] using hinv.joined c' i
      · intro c' hc'
        rcases List.mem_append.mp hc' with hc' | hc'
        · exact hinv.ret c' hc'
        · exact hret c' (by simpa using hc')

/-- A dispatcher that calls a function has not exited. -/
theorem dispatcherFunction_called {d : Fin n} {sh sh' : Shared n τ} {pc pc' : DispatcherPc τ}
    {e : Option (Event n τ)} (h : dispatcherFunction d sh pc = some (sh', pc', e))
    (hpc : pc.isExited = true) : e.bind calledTask = none := by
  cases pc <;> simp_all [dispatcherFunction, DispatcherPc.isExited]

/-- No function is called after the return of the shutdown. -/
theorem calledTasks_after_shutdown {K : State n τ → Action n τ → Prop} {tr : List (Event n τ)}
    {s : State n τ} (h : (machine n τ).RunIf K tr s) :
    ∀ pre c post, tr = pre ++ .shutdownRet c :: post → calledTasks post = [] := by
  refine h.induction
    (I := fun tr _ => ∀ pre c post, tr = pre ++ .shutdownRet c :: post → calledTasks post = [])
    ?_ ?_
  · intro pre c post htr
    simp at htr
  · intro tr s a s' e hrun hinv _ hnext pre c post htr
    rcases append_toList_eq_append_cons htr with ⟨post', hold, rfl⟩ | ⟨-, -, rfl⟩
    · have hexited := (joinInv_of_run hrun).ret c (by rw [hold]; simp)
      have hcall : e.bind calledTask = none := by
        rcases next_cases hnext with ⟨d, sh, pc, -, hf, rfl⟩ | ⟨c, move, sh, pc, -, hf, rfl⟩
        · exact dispatcherFunction_called hf (hexited d)
        · exact (clientFunction_tasks hf).2.2.1
      rw [calledTasks, filterMap_append_of_none hcall]
      exact hinv pre c post' hold
    · rfl

/-- An exited dispatcher holds no task. -/
theorem held_of_isExited {pc : DispatcherPc τ} (h : pc.isExited = true) : held pc = 0 := by
  cases pc <;> simp_all [DispatcherPc.isExited, held]

/-- A dispatcher holds at most one task. -/
theorem card_held_le (pc : DispatcherPc τ) : (held pc).card ≤ 1 := by
  cases pc <;> simp [held]

/-- Task conservation, for every `size_t n` of dispatchers and every interleaving of clients
and dispatchers. The tasks ever enqueued are the disjoint union of the queue, the tasks held
and the tasks returned; a returned task has been called exactly once. `_in_flight` is the
number of dispatchers between its increment and its decrement. It is at most `n`, and it is
positive whenever a dispatcher is about to decrement it. Once the shutdown has returned, no
task is held and no function is called. -/
theorem task_conservation [DecidableEq τ] (n : UInt64) {tr : List (Event n.toNat τ)}
    {s : State n.toNat τ} (h : (machine n.toNat τ).Run tr s) :
    (enqueuedTasks tr : Multiset (PoolTask τ))
      = s.shared.queue + ∑ d, held (s.dispatcher d) + returnedTasks tr ∧
    (enqueuedTasks tr).Nodup ∧
    (∀ d, (held (s.dispatcher d)).card ≤ 1) ∧
    (∀ task ∈ returnedTasks tr, (calledTasks tr).count task = 1) ∧
    s.shared.inFlight.toNat = countedDispatchers s ∧
    countedDispatchers s ≤ n.toNat ∧
    (∀ d, s.dispatcher d = .decrInFlight → 0 < s.shared.inFlight) ∧
    (∀ pre c post, tr = pre ++ .shutdownRet c :: post →
      (∀ d, held (s.dispatcher d) = 0) ∧ calledTasks post = []) := by
  have hinv := tasksInv_of_run h
  have hcount := inFlight_of_run n.toNat_lt h
  refine ⟨hinv.tasks, enqueuedTasks_nodup h, fun d => card_held_le _, ?_, hcount,
    countedDispatchers_le s, ?_, ?_⟩
  · intro task htask
    have hcalled : task ∈ (calledTasks tr : Multiset (PoolTask τ)) := by
      rw [hinv.calls]
      exact Multiset.mem_add.mpr (Or.inr htask)
    exact List.count_eq_one_of_mem (calledTasks_nodup h) hcalled
  · intro d hd
    have hpos : (counted (s.dispatcher d)).toNat ≤ countedDispatchers s :=
      Finset.single_le_sum (f := fun d => (counted (s.dispatcher d)).toNat)
        (fun _ _ => Nat.zero_le _) (Finset.mem_univ d)
    rw [hd, counted, Bool.toNat_true] at hpos
    rw [UInt64.lt_iff_toNat_lt, hcount]
    exact hpos
  · intro pre c post htr
    have hexited := (joinInv_of_run h).ret c (by rw [htr]; simp)
    exact ⟨fun d => held_of_isExited (hexited d), calledTasks_after_shutdown h pre c post htr⟩

/-- A pool with one dispatcher gets one task, runs it and is shut down. -/
theorem task_conservation_one_task :
    ∃ tr s, (machine (1 : UInt64).toNat Nat).Run tr s ∧ returnedTasks tr = [⟨0, 7⟩] ∧
      (calledTasks tr).count ⟨0, 7⟩ = 1 := by
  let d : Action (1 : UInt64).toNat Nat := .dispatcher ⟨0, by decide⟩
  let go : Action (1 : UInt64).toNat Nat := .client 0 .go
  obtain ⟨tr, s, hrun, htest⟩ := Machine.run_of_exec (M := machine (1 : UInt64).toNat Nat)
    ([.client 0 (.callSubmit 7), go, go, go, go, go, go] ++ List.replicate 13 d
      ++ [.client 0 .callShutdown, go, go, go, go, go, d, d, d, d, d, go, go])
    (fun tr _ => returnedTasks tr == [⟨0, 7⟩]) (by decide)
  have hret : returnedTasks tr = [⟨0, 7⟩] := by simpa using htest
  have hcons := task_conservation 1 hrun
  exact ⟨tr, s, hrun, hret, hcons.2.2.2.1 _ (by simp [hret])⟩

end

end Miez.Proofs.ThreadPool
