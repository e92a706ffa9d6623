import Miez.Lib.Threads
import Miez.ThreadPool

/-!
# `Miez.Proofs.ThreadPool.Steps`: what one step of the pool can do

Every invariant of the pool is proved from the lemmas of this file and does not unfold the
step functions again. `next_cases` says that a step moves one dispatcher or one client.
The other lemmas say what such a move does to one aspect of the state: the mutex, the parked
threads, the flags, the tasks and the counter. Each of them is a case analysis over the
program points of the thread that moves.

`mutexInv_of_run` is the first invariant: `_mutex` is held by exactly the thread whose
program point is inside a critical section.
-/

set_option autoImplicit false

namespace Miez.Proofs.ThreadPool

open Miez.Lib
open Miez.ThreadPool

section
variable {n : Nat} {τ : Type}

/-- A step of the pool is a step of one dispatcher or of one client. -/
theorem next_cases {s s' : State n τ} {a : Action n τ} {e : Option (Event n τ)}
    (h : next s a = some (s', e)) :
    (∃ d sh pc, a = .dispatcher d ∧
      dispatcherFunction d s.shared (s.dispatcher d) = some (sh, pc, e) ∧
      s' = ⟨sh, Function.update s.dispatcher d pc, s.client⟩) ∨
    (∃ c move sh pc, a = .client c move ∧
      clientFunction c (fun d => (s.dispatcher d).isExited) s.shared (s.client c) move
        = some (sh, pc, e) ∧
      s' = ⟨sh, s.dispatcher, Function.update s.client c pc⟩) := by
  cases a with
  | dispatcher d =>
      simp only [next, Option.map_eq_some_iff, Prod.mk.injEq] at h
      obtain ⟨⟨sh, pc, e'⟩, hf, rfl, rfl⟩ := h
      exact Or.inl ⟨d, sh, pc, rfl, hf, rfl⟩
  | client c move =>
      simp only [next, Option.map_eq_some_iff, Prod.mk.injEq] at h
      obtain ⟨⟨sh, pc, e'⟩, hf, rfl, rfl⟩ := h
      exact Or.inr ⟨c, move, sh, pc, rfl, hf, rfl⟩

/-! ### The mutex -/

/-- The dispatcher is between `pthread_mutex_lock` and the matching release. -/
def holds : DispatcherPc τ → Prop
  | .testEmpty | .testOn | .condWait | .testOff | .testOnExit | .testEmptyExit
  | .unlockExit | .unlock | .broadcastDone | .unlockDone => True
  | _ => False

/-- The client is between `pthread_mutex_lock` and the matching release. -/
def clientHolds : ClientPc τ → Prop
  | .submit (.signal _) | .submit (.unlock _) => True
  | .wait .testEmpty | .wait .testInFlight | .wait .condWait | .wait .unlock => True
  | .shutdown .broadcast | .shutdown .unlock => True
  | _ => False

/-- The thread is inside a critical section of `_mutex`. -/
def inside (s : State n τ) : Tid n → Prop
  | .dispatcher d => holds (s.dispatcher d)
  | .client c => clientHolds (s.client c)

/-- What a step of a dispatcher does to `_mutex`. -/
theorem dispatcherFunction_lockStep {d : Fin n} {sh sh' : Shared n τ} {pc pc' : DispatcherPc τ}
    {e : Option (Event n τ)} (h : dispatcherFunction d sh pc = some (sh', pc', e)) :
    LockStep (Tid.dispatcher d) (holds pc) (holds pc') sh.mutex sh'.mutex := by
  cases pc <;>
    grind [dispatcherFunction, holds, Shared.lock, Shared.unlock, GenericQueueSyn.dequeue,
      LockStep]

/-- What a step of a client does to `_mutex`. -/
theorem clientFunction_lockStep {c : Nat} {exited : Fin n → Bool} {sh sh' : Shared n τ}
    {pc pc' : ClientPc τ} {move : ClientMove n τ} {e : Option (Event n τ)}
    (h : clientFunction c exited sh pc move = some (sh', pc', e)) :
    LockStep (Tid.client c) (clientHolds pc) (clientHolds pc') sh.mutex sh'.mutex := by
  cases pc with
  | idle => cases move <;> grind [clientFunction, clientHolds, LockStep]
  | submit pc =>
      cases pc <;> cases move <;>
        grind [clientFunction, threadPoolSubmit, clientHolds, Shared.lock, Shared.unlock,
          Shared.signalNewTask, LockStep]
  | wait pc =>
      cases pc <;> cases move <;>
        grind [clientFunction, threadPoolWait, clientHolds, Shared.lock, Shared.unlock, LockStep]
  | shutdown pc =>
      cases pc <;> cases move <;>
        grind [clientFunction, threadPoolShutdown, clientHolds, Shared.lock, Shared.unlock,
          LockStep]

/-- The holder of `_mutex` is the one thread inside a critical section. -/
def MutexInv (s : State n τ) : Prop := LockInv (inside s) s.shared.mutex

/-- A step of the pool keeps `MutexInv`. -/
theorem mutexInv_next {s s' : State n τ} {a : Action n τ} {e : Option (Event n τ)}
    (hinv : MutexInv s) (h : next s a = some (s', e)) : MutexInv s' := by
  rcases next_cases h with ⟨d, sh, pc, -, hf, rfl⟩ | ⟨c, move, sh, pc, -, hf, rfl⟩
  · refine hinv.step (.dispatcher d) ?_ ?_
    · simpa [inside] using dispatcherFunction_lockStep hf
    · intro t ht
      cases t with
      | dispatcher d' =>
          have hd : d' ≠ d := fun heq => ht (heq ▸ rfl)
          simp [inside, Function.update_of_ne hd]
      | client c => rfl
  · refine hinv.step (.client c) ?_ ?_
    · simpa [inside] using clientFunction_lockStep hf
    · intro t ht
      cases t with
      | dispatcher d => rfl
      | client c' =>
          have hc : c' ≠ c := fun heq => ht (heq ▸ rfl)
          simp [inside, Function.update_of_ne hc]

/-- In every state of a run, `_mutex` is held by exactly the thread inside a critical
section. -/
theorem mutexInv_of_run {K : State n τ → Action n τ → Prop} {tr : List (Event n τ)}
    {s : State n τ} (h : (machine n τ).RunIf K tr s) : MutexInv s := by
  refine h.induction (I := fun _ s => MutexInv s) ?_ ?_
  · intro t
    cases t <;> simp [inside, machine, init, holds, clientHolds]
  · intro tr s a s' e _ hinv _ hnext
    exact mutexInv_next hinv hnext

end

end Miez.Proofs.ThreadPool
