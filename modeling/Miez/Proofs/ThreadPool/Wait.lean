import Miez.Proofs.ThreadPool.Wakeup

/-!
# `Miez.Proofs.ThreadPool.Wait`: what a return from `thread_pool_wait` means

`thread_pool_wait` returns when it finds the queue empty and `_in_flight` equal to 0. A
dispatcher takes a task out of the queue in one step and counts it in `_in_flight` in the
next one. Between the two steps the task is in neither place. `wait_returns_early` is a run in which
a waiter returns in this window. `waitRet_returned` is the barrier for the runs in which no
waiter reads `_in_flight` in the window.

A waiter leaves its loop only through a broadcast of `_task_done`, and only dispatchers send
it. `stranded_by_shutdown` is a run in which the dispatchers exit with a task in the queue,
and a waiter stays behind. `not_stranded` is the guarantee for the runs in which the last
dispatcher leaves an empty queue.
-/

set_option autoImplicit false

namespace Miez.Proofs.ThreadPool

open Miez.Lib
open Miez.ThreadPool

section
variable {n : Nat} {τ : Type}

/-! ### What a step of a client does to its wait and its submit -/

/-- The task that a submit has put into the queue and has still to return for. -/
def submittingTask : ClientPc τ → Option (PoolTask τ)
  | .submit (.lock task) | .submit (.signal task) | .submit (.unlock task) => some task
  | _ => none

/-- Where a client's task comes from, and what its return means. -/
theorem clientFunction_submitting {c : Nat} {exited : Fin n → Bool} {sh sh' : Shared n τ}
    {pc pc' : ClientPc τ} {move : ClientMove n τ} {e : Option (Event n τ)}
    (h : clientFunction c exited sh pc move = some (sh', pc', e)) :
    (∀ task, submittingTask pc' = some task →
      submittingTask pc = some task ∨ e.bind enqueuedTask = some task) ∧
    (∀ c' task, e = some (.submitted c' task) → submittingTask pc = some task) := by
  cases pc with
  | idle => cases move <;> grind [clientFunction, submittingTask]
  | submit pc =>
      cases pc <;> cases move <;>
        grind [clientFunction, threadPoolSubmit, Shared.lock, Shared.signalNewTask,
          submittingTask, enqueuedTask]
  | wait pc =>
      cases pc <;> cases move <;>
        grind [clientFunction, threadPoolWait, Shared.lock, submittingTask]
  | shutdown pc =>
      cases pc <;> cases move <;>
        grind [clientFunction, threadPoolShutdown, Shared.lock, submittingTask]

/-- A waiter reads `_in_flight` after it has found the queue empty, and it leaves its loop
after it has read 0 there. -/
theorem clientFunction_wait {c : Nat} {exited : Fin n → Bool} {sh sh' : Shared n τ}
    {pc pc' : ClientPc τ} {move : ClientMove n τ} {e : Option (Event n τ)}
    (h : clientFunction c exited sh pc move = some (sh', pc', e)) :
    (pc' = .wait .testInFlight → sh'.queue = []) ∧
    (pc' = .wait .unlock → pc = .wait .testInFlight ∧ move = .go ∧ sh.inFlight = 0) ∧
    (∀ c', e = some (.waitCall c') → c' = c ∧ pc' = .wait .lock) ∧
    (∀ c', e = some (.waitRet c') → c' = c ∧ pc = .wait .unlock) := by
  cases pc with
  | idle => cases move <;> grind [clientFunction]
  | submit pc =>
      cases pc <;> cases move <;>
        grind [clientFunction, threadPoolSubmit, Shared.lock, Shared.signalNewTask]
  | wait pc =>
      cases pc <;> cases move <;>
        grind [clientFunction, threadPoolWait, Shared.lock, GenericQueueSyn.isEmpty_iff,
          UInt64.not_lt, UInt64.le_zero_iff]
  | shutdown pc =>
      cases pc <;> cases move <;> grind [clientFunction, threadPoolShutdown, Shared.lock]

/-- The events of a dispatcher are calls and returns of tasks. -/
theorem dispatcherFunction_event {d : Fin n} {sh sh' : Shared n τ} {pc pc' : DispatcherPc τ}
    {e : Option (Event n τ)} (h : dispatcherFunction d sh pc = some (sh', pc', e)) :
    ∀ x, e = some x → (∃ task, x = .called d task) ∨ ∃ task, x = .returned d task := by
  cases pc <;> grind [dispatcherFunction, Shared.lock]

/-! ### The barrier -/

/-- The dispatcher is between the dequeue of a task and the increment of `_in_flight`. -/
def inWindow : DispatcherPc τ → Bool
  | .incrInFlight _ => true
  | _ => false

/-- The condition on a step for the barrier: when a waiter that has found the queue empty
reads 0 from `_in_flight`, no dispatcher is between its dequeue and its increment. -/
def NoTaskInWindow (s : State n τ) : Action n τ → Prop
  | .client c .go => s.client c = .wait .testInFlight → s.shared.inFlight = 0 →
      ∀ d, inWindow (s.dispatcher d) = false
  | _ => True

instance [DecidableEq τ] (s : State n τ) (a : Action n τ) : Decidable (NoTaskInWindow s a) := by
  unfold NoTaskInWindow
  split <;> infer_instance

/-- What a waiter knows about the tasks submitted before it was called. A task whose submit
has returned was enqueued. Once the waiter has found the queue empty, none of these tasks is
in the queue, and once it has left its loop all of them have returned. -/
structure BarrierInv (tr : List (Event n τ)) (s : State n τ) : Prop where
  submitting : ∀ c task, submittingTask (s.client c) = some task → task ∈ enqueuedTasks tr
  submitted : ∀ c task, .submitted c task ∈ tr → task ∈ enqueuedTasks tr
  sawEmpty : ∀ c c' task, Before tr (.submitted c' task) (.waitCall c) →
    s.client c = .wait .testInFlight → task ∉ s.shared.queue
  sawDone : ∀ c c' task, Before tr (.submitted c' task) (.waitCall c) →
    s.client c = .wait .unlock → task ∈ returnedTasks tr

/-- The tasks enqueued stay so. -/
theorem mem_enqueuedTasks_append {tr tr' : List (Event n τ)} {task : PoolTask τ}
    (h : task ∈ enqueuedTasks tr) : task ∈ enqueuedTasks (tr ++ tr') := by
  rw [enqueuedTasks, List.filterMap_append]
  exact List.mem_append_left _ h

/-- The tasks returned stay so. -/
theorem mem_returnedTasks_append {tr tr' : List (Event n τ)} {task : PoolTask τ}
    (h : task ∈ returnedTasks tr) : task ∈ returnedTasks (tr ++ tr') := by
  rw [returnedTasks, List.filterMap_append]
  exact List.mem_append_left _ h

/-- A step of a dispatcher keeps `BarrierInv`. -/
theorem barrierInv_dispatcher {tr : List (Event n τ)} {s : State n τ} {d : Fin n}
    {sh : Shared n τ} {pc : DispatcherPc τ} {e : Option (Event n τ)} (hinv : BarrierInv tr s)
    (hf : dispatcherFunction d s.shared (s.dispatcher d) = some (sh, pc, e)) :
    BarrierInv (tr ++ e.toList) ⟨sh, Function.update s.dispatcher d pc, s.client⟩ := by
  have hevent := dispatcherFunction_event hf
  -- The new event is neither the return of a submit nor the call of a wait.
  have hbefore : ∀ c c' task, Before (tr ++ e.toList) (.submitted c' task) (.waitCall c) →
      Before tr (.submitted c' task) (.waitCall c) := by
    intro c c' task hb
    rcases before_append_toList.mp hb with hb | ⟨-, he⟩
    · exact hb
    · rcases hevent _ he with ⟨_, hx⟩ | ⟨_, hx⟩ <;> cases hx
  refine ⟨?_, ?_, ?_, ?_⟩
  · intro c task hc
    exact mem_enqueuedTasks_append (hinv.submitting c task hc)
  · intro c task hc
    rcases List.mem_append.mp hc with hc | hc
    · exact mem_enqueuedTasks_append (hinv.submitted c task hc)
    · rcases hevent _ (by simpa using hc) with ⟨_, hx⟩ | ⟨_, hx⟩ <;> cases hx
  · intro c c' task hb hc hmem
    exact hinv.sawEmpty c c' task (hbefore c c' task hb) hc ((dispatcherFunction_queue hf).1 hmem)
  · intro c c' task hb hc
    exact mem_returnedTasks_append (hinv.sawDone c c' task (hbefore c c' task hb) hc)

/-- When the queue holds no earlier task and every dispatcher has empty hands, the earlier
tasks have returned. -/
theorem returned_of_not_held {K : State n τ → Action n τ → Prop} {tr : List (Event n τ)}
    {s : State n τ} (hrun : (machine n τ).RunIf K tr s) {task : PoolTask τ}
    (henq : task ∈ enqueuedTasks tr) (hqueue : task ∉ s.shared.queue)
    (hheld : ∀ d, held (s.dispatcher d) = 0) : task ∈ returnedTasks tr := by
  have htasks := (tasksInv_of_run hrun).tasks
  have hsum : ∑ d, held (s.dispatcher d) = 0 := Finset.sum_eq_zero fun d _ => hheld d
  have hmem : task ∈ (enqueuedTasks tr : Multiset (PoolTask τ)) := henq
  rw [htasks, hsum, add_zero, Multiset.mem_add] at hmem
  exact hmem.resolve_left hqueue

/-- A dispatcher outside the window has empty hands when `_in_flight` is 0. -/
theorem held_eq_zero {K : State n τ → Action n τ → Prop} (hn : n < 2 ^ 64)
    {tr : List (Event n τ)} {s : State n τ} (hrun : (machine n τ).RunIf K tr s)
    (hzero : s.shared.inFlight = 0) (hwindow : ∀ d, inWindow (s.dispatcher d) = false)
    (d : Fin n) : held (s.dispatcher d) = 0 := by
  have hcount := inFlight_of_run hn hrun
  rw [hzero, UInt64.toNat_zero] at hcount
  have hd : (counted (s.dispatcher d)).toNat ≤ countedDispatchers s :=
    Finset.single_le_sum (f := fun d => (counted (s.dispatcher d)).toNat)
      (fun _ _ => Nat.zero_le _) (Finset.mem_univ d)
  rw [← hcount] at hd
  have hwin := hwindow d
  cases hpc : s.dispatcher d with
  | incrInFlight task => simp [hpc, inWindow] at hwin
  | callFunction task => simp [hpc, counted] at hd
  | running task => simp [hpc, counted] at hd
  | _ => rfl

/-- A step of a client keeps `BarrierInv`, if it meets the condition. -/
theorem barrierInv_client {K : State n τ → Action n τ → Prop} (hn : n < 2 ^ 64)
    {tr : List (Event n τ)} {s : State n τ} (hrun : (machine n τ).RunIf K tr s) {c : Nat}
    {exited : Fin n → Bool} {move : ClientMove n τ} {sh : Shared n τ} {pc : ClientPc τ}
    {e : Option (Event n τ)} (hinv : BarrierInv tr s)
    (hK : NoTaskInWindow s (.client c move))
    (hnodup : (enqueuedTasks (tr ++ e.toList)).Nodup)
    (hf : clientFunction c exited s.shared (s.client c) move = some (sh, pc, e)) :
    BarrierInv (tr ++ e.toList) ⟨sh, s.dispatcher, Function.update s.client c pc⟩ := by
  obtain ⟨hqueue, -, -, -⟩ := clientFunction_tasks hf
  obtain ⟨hsub, hret⟩ := clientFunction_submitting hf
  obtain ⟨hempty, hleave, hcall, -⟩ := clientFunction_wait hf
  have henq : enqueuedTasks (tr ++ e.toList) = enqueuedTasks tr ++ (e.bind enqueuedTask).toList :=
    filterMap_append_toList enqueuedTask tr e
  refine ⟨?_, ?_, ?_, ?_⟩
  · refine forall_update
      (P := fun _ pc => ∀ task, submittingTask pc = some task →
        task ∈ enqueuedTasks (tr ++ e.toList)) ?_ ?_
    · intro task htask
      rcases hsub task htask with hold | hnew
      · exact mem_enqueuedTasks_append (hinv.submitting c task hold)
      · rw [henq, hnew]
        simp
    · intro c' _ task htask
      exact mem_enqueuedTasks_append (hinv.submitting c' task htask)
  · intro c' task hc'
    rcases List.mem_append.mp hc' with hc' | hc'
    · exact mem_enqueuedTasks_append (hinv.submitted c' task hc')
    · exact mem_enqueuedTasks_append
        (hinv.submitting c task (hret c' task (by simpa using hc')))
  · intro w c' task hb hw
    show task ∉ sh.queue
    by_cases hwc : w = c
    · subst hwc
      have hpc : pc = .wait .testInFlight := by simpa using hw
      simp [hempty hpc]
    · have hold : s.client w = .wait .testInFlight := by
        simpa [Function.update_of_ne hwc] using hw
      rcases before_append_toList.mp hb with hb | ⟨-, he⟩
      · have hnot := hinv.sawEmpty w c' task hb hold
        -- A task enqueued now is a new one.
        have hmem := hinv.submitted c' task hb.mem_left
        rw [henq] at hnodup
        have hdisj := (List.nodup_append.mp hnodup).2.2 task hmem
        rw [hqueue, List.mem_append]
        rintro (hq | hq)
        · exact hnot hq
        · exact hdisj task hq rfl
      · exact absurd (hcall w he).1 hwc
  · intro w c' task hb hw
    by_cases hwc : w = c
    · subst hwc
      have hpc : pc = .wait .unlock := by simpa using hw
      obtain ⟨hold, rfl, hzero⟩ := hleave hpc
      rcases before_append_toList.mp hb with hb | ⟨-, he⟩
      · have hwindow := hK hold hzero
        have hnot := hinv.sawEmpty w c' task hb hold
        have hmem := hinv.submitted c' task hb.mem_left
        exact mem_returnedTasks_append
          (returned_of_not_held hrun hmem hnot (held_eq_zero hn hrun hzero hwindow))
      · have := (hcall w he).2
        rw [hpc] at this
        cases this
    · have hold : s.client w = .wait .unlock := by simpa [Function.update_of_ne hwc] using hw
      rcases before_append_toList.mp hb with hb | ⟨-, he⟩
      · exact mem_returnedTasks_append (hinv.sawDone w c' task hb hold)
      · exact absurd (hcall w he).1 hwc

/-- `BarrierInv` holds in every state of a run that meets the condition. -/
theorem barrierInv_of_run (hn : n < 2 ^ 64) {tr : List (Event n τ)} {s : State n τ}
    (h : (machine n τ).RunIf NoTaskInWindow tr s) : BarrierInv tr s := by
  refine h.induction ?_ ?_
  · constructor <;> simp [machine, init, submittingTask]
  · intro tr s a s' e hrun hinv hK hnext
    have hnodup := enqueuedTasks_nodup (hrun.snoc hK hnext)
    rcases next_cases hnext with ⟨d, sh, pc, -, hf, rfl⟩ | ⟨c, move, sh, pc, rfl, hf, rfl⟩
    · exact barrierInv_dispatcher hinv hf
    · exact barrierInv_client hn hrun hinv hK hnodup hf

/-- Only the last step of a wait shows its return. -/
theorem next_waitRet {s s' : State n τ} {a : Action n τ} {c : Nat}
    (h : next s a = some (s', some (.waitRet c))) : s.client c = .wait .unlock := by
  rcases next_cases h with ⟨d, sh, pc, -, hf, rfl⟩ | ⟨c', move, sh, pc, -, hf, rfl⟩
  · rcases dispatcherFunction_event hf _ rfl with ⟨_, hx⟩ | ⟨_, hx⟩ <;> cases hx
  · obtain ⟨rfl, hpc⟩ := (clientFunction_wait hf).2.2.2 c rfl
    exact hpc

/-- The barrier. In a run that meets the condition, a task whose submit returned 0 before a
wait was called has returned when that wait returns. -/
theorem waitRet_returned (hn : n < 2 ^ 64) {pre : List (Event n τ)} {c c' : Nat}
    {task : PoolTask τ} {s : State n τ}
    (h : (machine n τ).RunIf NoTaskInWindow (pre ++ [.waitRet c]) s)
    (hb : Before pre (.submitted c' task) (.waitCall c)) : task ∈ returnedTasks pre := by
  obtain ⟨s₁, a, s₂, hrun, -, hnext⟩ := h.step_of_event
  exact (barrierInv_of_run hn hrun).sawDone c c' task hb (next_waitRet hnext)

/-- A pool with one dispatcher: a task is submitted, the dispatcher takes it out of the queue,
and a wait called then returns before the dispatcher has counted the task. -/
theorem wait_returns_early :
    ¬ ∀ (pre : List (Event 1 Nat)) (c c' : Nat) (task : PoolTask Nat) (s : State 1 Nat),
      (machine 1 Nat).Run (pre ++ [.waitRet c]) s →
      Before pre (.submitted c' task) (.waitCall c) → task ∈ returnedTasks pre := by
  intro hclaim
  let d : Action 1 Nat := .dispatcher 0
  let go : Action 1 Nat := .client 0 .go
  let task : PoolTask Nat := ⟨0, 7⟩
  obtain ⟨tr, s, hrun, htest⟩ := Machine.run_of_exec (M := machine 1 Nat)
    ([.client 0 (.callSubmit 7), go, go, go, go, go, go] ++ List.replicate 6 d
      ++ [.client 0 .callWait, go, go, go, go])
    (fun tr _ => tr == [.submitCall 0 7, .enqueued task, .submitted 0 task, .waitCall 0]
      ++ [.waitRet 0]) (by decide)
  have htr := beq_iff_eq.mp htest
  rw [htr] at hrun
  have hret := hclaim _ 0 0 task s hrun (by decide)
  exact absurd hret (by decide)

/-! ### Waiters and the shutdown -/

/-- A waiter is parked on `_task_done` and every dispatcher has exited. -/
def Stranded (s : State n τ) : Prop :=
  (∃ c, s.client c = .wait .parked ∧ c ∈ s.shared.taskDone) ∧ ∀ d, s.dispatcher d = .exited

/-- The client is at the queue operation of a submit. -/
def enqueues : ClientPc τ → Bool
  | .submit (.enqueue _) => true
  | _ => false

/-- The condition on a step for the waiters: the last dispatcher exits only when the queue is
empty, and no submit enqueues once every dispatcher has exited. -/
def QueueDrained (s : State n τ) : Action n τ → Prop
  | .dispatcher d => s.dispatcher d = .unlockExit →
      (∀ d', d' ≠ d → s.dispatcher d' = .exited) → s.shared.queue = []
  | .client c .go => enqueues (s.client c) = true → ∃ d, s.dispatcher d ≠ .exited
  | _ => True

instance [DecidableEq τ] (s : State n τ) (a : Action n τ) : Decidable (QueueDrained s a) := by
  unfold QueueDrained
  split <;> infer_instance

/-- The dispatcher is between the dequeue of a task and the broadcast that follows it. -/
def busy : DispatcherPc τ → Prop
  | .incrInFlight _ | .callFunction _ | .running _ | .decrInFlight | .lockDone
  | .broadcastDone => True
  | _ => False

/-- Work does not vanish: a task leaves the queue into the hands of a dispatcher, and that
dispatcher stays busy until it wakes the waiters. -/
theorem dispatcherFunction_busy {d : Fin n} {sh sh' : Shared n τ} {pc pc' : DispatcherPc τ}
    {e : Option (Event n τ)} (h : dispatcherFunction d sh pc = some (sh', pc', e)) :
    (sh.queue ≠ [] → sh'.queue ≠ [] ∨ busy pc') ∧
    (busy pc → busy pc' ∨ (pc = .broadcastDone ∧ sh'.taskDone = ∅)) ∧
    sh'.taskDone ⊆ sh.taskDone := by
  cases pc with
  | dequeue =>
      cases hq : sh.queue with
      | nil => grind [dispatcherFunction, GenericQueueSyn.dequeue_nil, busy]
      | cons task rest => grind [dispatcherFunction, GenericQueueSyn.dequeue_cons, busy]
  | _ => grind [dispatcherFunction, Shared.lock, Shared.unlock, busy]

/-- A waiter goes to park when there is work, and only waiters park on `_task_done`. -/
theorem clientFunction_taskDone {c : Nat} {exited : Fin n → Bool} {sh sh' : Shared n τ}
    {pc pc' : ClientPc τ} {move : ClientMove n τ} {e : Option (Event n τ)}
    (h : clientFunction c exited sh pc move = some (sh', pc', e)) :
    (pc' = .wait .condWait → sh.queue ≠ [] ∨ sh.inFlight ≠ 0) ∧
    (∀ c' ∈ sh'.taskDone, c' ∈ sh.taskDone ∨ (c' = c ∧ pc = .wait .condWait)) := by
  cases pc with
  | idle => cases move <;> grind [clientFunction]
  | submit pc =>
      cases pc <;> cases move <;>
        grind [clientFunction, threadPoolSubmit, Shared.lock, Shared.unlock,
          Shared.signalNewTask]
  | wait pc =>
      cases pc <;> cases move <;>
        grind [clientFunction, threadPoolWait, Shared.lock, Shared.unlock,
          GenericQueueSyn.isEmpty_iff]
  | shutdown pc =>
      cases pc <;> cases move <;>
        grind [clientFunction, threadPoolShutdown, Shared.lock, Shared.unlock]

/-- Only the queue operation of a submit enqueues. -/
theorem clientFunction_enqueues {c : Nat} {exited : Fin n → Bool} {sh sh' : Shared n τ}
    {pc pc' : ClientPc τ} {move : ClientMove n τ} {e : Option (Event n τ)}
    (h : clientFunction c exited sh pc move = some (sh', pc', e)) :
    e.bind enqueuedTask = none ∨ (move = .go ∧ enqueues pc = true) := by
  cases pc with
  | idle => cases move <;> grind [clientFunction, enqueuedTask, enqueues]
  | submit pc =>
      cases pc <;> cases move <;>
        grind [clientFunction, threadPoolSubmit, Shared.lock, Shared.signalNewTask, enqueuedTask, enqueues]
  | wait pc =>
      cases pc <;> cases move <;>
        grind [clientFunction, threadPoolWait, Shared.lock, enqueuedTask, enqueues]
  | shutdown pc =>
      cases pc <;> cases move <;>
        grind [clientFunction, threadPoolShutdown, Shared.lock, enqueuedTask, enqueues]

/-- Somebody is left to wake the waiters. While a waiter is about to park or parked, the
queue is not empty or a dispatcher is busy; and when all dispatchers have exited, the queue
is empty. -/
structure WaiterInv (s : State n τ) : Prop where
  waiting : ∀ c, s.client c = .wait .condWait ∨ c ∈ s.shared.taskDone →
    s.shared.queue ≠ [] ∨ ∃ d, busy (s.dispatcher d)
  drained : (∀ d, s.dispatcher d = .exited) → s.shared.queue = []

/-- A step of a dispatcher keeps `WaiterInv`, if it meets the condition. -/
theorem waiterInv_dispatcher {s : State n τ} {d : Fin n} {sh : Shared n τ}
    {pc : DispatcherPc τ} {e : Option (Event n τ)} (hinv : WaiterInv s) (hmutex : MutexInv s)
    (hK : QueueDrained s (.dispatcher d))
    (hf : dispatcherFunction d s.shared (s.dispatcher d) = some (sh, pc, e)) :
    WaiterInv ⟨sh, Function.update s.dispatcher d pc, s.client⟩ := by
  obtain ⟨hwork, hbusy, hparked⟩ := dispatcherFunction_busy hf
  have hmine : busy pc → ∃ d', busy (Function.update s.dispatcher d pc d') :=
    fun hpc => ⟨d, by rwa [Function.update_self]⟩
  constructor
  · intro c hc
    have hold : s.client c = .wait .condWait ∨ c ∈ s.shared.taskDone := hc.imp_right (@hparked c)
    rcases hinv.waiting c hold with hne | ⟨d', hd'⟩
    · exact (hwork hne).imp_right hmine
    · by_cases hd : d' = d
      · subst hd
        rcases hbusy hd' with hpc | ⟨hpc, hwake⟩
        · exact Or.inr (hmine hpc)
        · -- The broadcast: nobody is parked afterwards, and nobody is about to park, since
          -- the dispatcher holds the mutex.
          exfalso
          rcases hc with hc | hc
          · have hin : holds (s.dispatcher d') := by rw [hpc]; trivial
            have hcin : clientHolds (s.client c) := by
              have hc : s.client c = .wait .condWait := hc
              rw [hc]
              trivial
            have heq : Tid.dispatcher d' = Tid.client c := hmutex.unique hin hcin
            cases heq
          · simp [hwake] at hc
      · refine Or.inr ⟨d', ?_⟩
        show busy (Function.update s.dispatcher d pc d')
        rwa [Function.update_of_ne hd]
  · intro hall
    have hpc : pc = .exited := by simpa using hall d
    have hexit := (dispatcherFunction_flags hf).2.2.2.2 hpc
    have hothers : ∀ d', d' ≠ d → s.dispatcher d' = .exited := by
      intro d' hd'
      simpa [Function.update_of_ne hd'] using hall d'
    have hempty : s.shared.queue = [] := hK hexit hothers
    exact List.eq_nil_of_subset_nil (hempty ▸ (dispatcherFunction_queue hf).1)

/-- A positive `_in_flight` shows a busy dispatcher. -/
theorem exists_busy {K : State n τ → Action n τ → Prop} (hn : n < 2 ^ 64)
    {tr : List (Event n τ)} {s : State n τ} (hrun : (machine n τ).RunIf K tr s)
    (hpos : s.shared.inFlight ≠ 0) : ∃ d, busy (s.dispatcher d) := by
  have hcount := inFlight_of_run hn hrun
  have hne : countedDispatchers s ≠ 0 := by
    intro hzero
    rw [hzero] at hcount
    exact hpos (UInt64.toNat_inj.mp hcount)
  obtain ⟨d, -, hd⟩ := Finset.exists_ne_zero_of_sum_ne_zero hne
  refine ⟨d, ?_⟩
  cases hpc : s.dispatcher d <;> simp_all [counted, busy]

/-- A step of a client keeps `WaiterInv`, if it meets the condition. -/
theorem waiterInv_client {K : State n τ → Action n τ → Prop} (hn : n < 2 ^ 64)
    {tr : List (Event n τ)} {s : State n τ} (hrun : (machine n τ).RunIf K tr s) {c : Nat}
    {exited : Fin n → Bool} {move : ClientMove n τ} {sh : Shared n τ} {pc : ClientPc τ}
    {e : Option (Event n τ)} (hinv : WaiterInv s) (hK : QueueDrained s (.client c move))
    (hf : clientFunction c exited s.shared (s.client c) move = some (sh, pc, e)) :
    WaiterInv ⟨sh, s.dispatcher, Function.update s.client c pc⟩ := by
  obtain ⟨hpark, hparked⟩ := clientFunction_taskDone hf
  obtain ⟨hqueue, -, -, -⟩ := clientFunction_tasks hf
  have hgrow : s.shared.queue ≠ [] → sh.queue ≠ [] := by
    intro hne
    rw [hqueue]
    simp [hne]
  constructor
  · intro w hw
    suffices hwork : s.shared.queue ≠ [] ∨ ∃ d, busy (s.dispatcher d) from
      hwork.imp_left hgrow
    rcases hw with hw | hw
    · by_cases hwc : w = c
      · subst hwc
        rcases hpark (by simpa using hw) with hne | hpos
        · exact Or.inl hne
        · exact Or.inr (exists_busy hn hrun hpos)
      · exact hinv.waiting w (Or.inl (by simpa [Function.update_of_ne hwc] using hw))
    · rcases hparked w hw with hold | ⟨rfl, hold⟩
      · exact hinv.waiting w (Or.inr hold)
      · exact hinv.waiting w (Or.inl hold)
  · intro hall
    rcases clientFunction_enqueues hf with hnone | ⟨rfl, henq⟩
    · show sh.queue = []
      rw [hqueue, hnone, hinv.drained hall]
      rfl
    · obtain ⟨d, hd⟩ := hK henq
      exact absurd (hall d) hd

/-- `WaiterInv` holds in every state of a run that meets the condition. -/
theorem waiterInv_of_run (hn : n < 2 ^ 64) {tr : List (Event n τ)} {s : State n τ}
    (h : (machine n τ).RunIf QueueDrained tr s) : WaiterInv s := by
  refine h.induction (I := fun _ s => WaiterInv s) ?_ ?_
  · constructor <;> simp [machine, init]
  · intro tr s a s' e hrun hinv hK hnext
    rcases next_cases hnext with ⟨d, sh, pc, rfl, hf, rfl⟩ | ⟨c, move, sh, pc, rfl, hf, rfl⟩
    · exact waiterInv_dispatcher hinv (mutexInv_of_run hrun) hK hf
    · exact waiterInv_client hn hrun hinv hK hf

/-- No waiter is stranded in a run in which the last dispatcher leaves an empty queue and no
submit enqueues after it. -/
theorem not_stranded (n : UInt64) {tr : List (Event n.toNat τ)} {s : State n.toNat τ}
    (h : (machine n.toNat τ).RunIf QueueDrained tr s) : ¬ Stranded s := by
  rintro ⟨⟨c, -, hparked⟩, hexited⟩
  have hinv := waiterInv_of_run n.toNat_lt h
  rcases hinv.waiting c (Or.inr hparked) with hne | ⟨d, hd⟩
  · exact hne (hinv.drained hexited)
  · rw [hexited d] at hd
    exact hd

/-- A task is submitted, run and waited for, and the pool is shut down with an empty queue. -/
theorem not_stranded_drained :
    ∃ tr s, (machine (1 : UInt64).toNat Nat).RunIf QueueDrained tr s ∧
      (.waitRet 0 ∈ tr ∧ .shutdownRet 0 ∈ tr) ∧ ¬ Stranded s := by
  let d : Action (1 : UInt64).toNat Nat := .dispatcher ⟨0, by decide⟩
  let go : Action (1 : UInt64).toNat Nat := .client 0 .go
  obtain ⟨tr, s, hrun, htest⟩ := Machine.runIf_of_exec (M := machine (1 : UInt64).toNat Nat)
    (K := QueueDrained)
    ([.client 0 (.callSubmit 7), go, go, go, go, go, go]
      ++ [.client 0 .callWait, go, go, go] ++ List.replicate 13 d ++ [go, go, go, go]
      ++ [.client 0 .callShutdown, go, go, go, go, go, d, d, d, d, d, go, go])
    (fun tr _ => (.waitRet 0 ∈ tr) && (.shutdownRet 0 ∈ tr)) (by decide)
  have hmem : .waitRet 0 ∈ tr ∧ .shutdownRet 0 ∈ tr := by simpa using htest
  exact ⟨tr, s, hrun, hmem, not_stranded 1 hrun⟩

/-- A task is submitted to a pool with one dispatcher, and the pool is shut down before the
dispatcher has seen the task. The dispatcher exits, and a wait called afterwards parks for
ever. -/
theorem stranded_by_shutdown : ∃ s, (machine 1 Nat).Reachable s ∧ Stranded s := by
  let d : Action 1 Nat := .dispatcher 0
  let go : Action 1 Nat := .client 0 .go
  let go' : Action 1 Nat := .client 1 .go
  obtain ⟨tr, s, hrun, htest⟩ := Machine.run_of_exec (M := machine 1 Nat)
    ([.client 0 (.callSubmit 7), go, go, go, go, go, go]
      ++ [.client 0 .callShutdown, go, go, go, go, go, d, d, d, d, go, go]
      ++ [.client 1 .callWait, go', go', go'])
    (fun _ s => s.client 1 == .wait .parked && (1 ∈ s.shared.taskDone)
      && s.dispatcher 0 == .exited) (by decide)
  simp only [Bool.and_eq_true, beq_iff_eq, decide_eq_true_eq] at htest
  obtain ⟨⟨hpc, hmem⟩, hexited⟩ := htest
  refine ⟨s, ⟨tr, hrun⟩, ⟨1, hpc, hmem⟩, ?_⟩
  intro d
  rw [Subsingleton.elim d 0]
  exact hexited

end

end Miez.Proofs.ThreadPool
