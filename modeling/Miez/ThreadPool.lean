import Mathlib
import Miez.GenericQueueSyn
import Miez.Lib.Machine

/-!
# `Miez.ThreadPool`: the thread pool as a state machine

`src/thread_pool.c`: `n` dispatcher threads run `_dispatcher_function`, and any number of
client threads call `thread_pool_submit`, `thread_pool_wait` and `thread_pool_shutdown`. A
state holds the fields of `struct thread_pool_t` and the program point of every thread. One
step of a thread is one mutex operation, one condition-variable operation, one operation on
`_queue_syn` or one operation on an atomic field. Each source function is a Lean function
from its program points to the step taken there.

`pthread_cond_wait` gives `_mutex` back and parks the caller in one step. `newTask` and
`taskDone` are the threads parked on the two condition variables. A signal takes one parked
thread out of its set, a broadcast takes all of them, and a thread that is still in the set
can also take itself out, which is a spurious wake-up. A thread outside the set returns from
`pthread_cond_wait` when it gets `_mutex`.

The pool is as `thread_pool_new` leaves it when it returns 0. A pool is shut down at most
once, since a second `pthread_join` of the same thread is undefined. Arguments are not NULL.
The two allocations inside `thread_pool_submit` can fail.

`nextTask` counts the tasks put into the queue, which gives each of them an identity, and
`shutdownCalled` records the call of the shutdown; the code has neither.
-/

set_option autoImplicit false

namespace Miez.ThreadPool

open Miez.Lib

/-- `struct _task_t`. `arg` stands for the function pointer and its argument. `id` is the
identity of the allocated object: the number of tasks enqueued before it. -/
structure PoolTask (τ : Type) where
  id : Nat
  arg : τ
deriving DecidableEq, Repr

/-- A thread that uses the pool. -/
inductive Tid (n : Nat) where
  | dispatcher (d : Fin n)
  | client (c : Nat)
deriving DecidableEq, Repr

/-- The program points of `_dispatcher_function`. -/
inductive DispatcherPc (τ : Type) where
  | lock
  | testEmpty
  | testOn
  | condWait
  | parked
  | testOff
  | testOnExit
  | testEmptyExit
  | unlockExit
  | unlock
  | dequeue
  | incrInFlight (task : PoolTask τ)
  | callFunction (task : PoolTask τ)
  | running (task : PoolTask τ)
  | decrInFlight
  | lockDone
  | broadcastDone
  | unlockDone
  | exited
deriving DecidableEq, Repr

/-- The dispatcher thread has returned. -/
def DispatcherPc.isExited {τ : Type} : DispatcherPc τ → Bool
  | .exited => true
  | _ => false

/-- The program points of `thread_pool_submit`. -/
inductive SubmitPc (τ : Type) where
  | loadOff (arg : τ)
  | malloc (arg : τ)
  | enqueue (arg : τ)
  | lock (task : PoolTask τ)
  | signal (task : PoolTask τ)
  | unlock (task : PoolTask τ)
deriving DecidableEq, Repr

/-- The program points of `thread_pool_wait`. -/
inductive WaitPc where
  | lock
  | testEmpty
  | testInFlight
  | condWait
  | parked
  | unlock
deriving DecidableEq, Repr

/-- The program points of `thread_pool_shutdown`. At `join i` the threads before `i` have
been joined. -/
inductive ShutdownPc where
  | storeOn
  | storeOff
  | lock
  | broadcast
  | unlock
  | join (i : Nat)
deriving DecidableEq, Repr

/-- Where a client thread is. -/
inductive ClientPc (τ : Type) where
  | idle
  | submit (pc : SubmitPc τ)
  | wait (pc : WaitPc)
  | shutdown (pc : ShutdownPc)
deriving DecidableEq, Repr

/-- The fields of `struct thread_pool_t`, with the holder of `_mutex` and the threads parked
on `_new_task` and `_task_done`. -/
structure Shared (n : Nat) (τ : Type) where
  queue : GenericQueueSyn (PoolTask τ)
  mutex : Option (Tid n)
  newTask : Finset (Fin n)
  taskDone : Finset Nat
  on : Bool
  off : Bool
  inFlight : UInt64
  nextTask : Nat
  shutdownCalled : Bool

/-- A state of the pool and its threads. -/
structure State (n : Nat) (τ : Type) where
  shared : Shared n τ
  dispatcher : Fin n → DispatcherPc τ
  client : Nat → ClientPc τ

/-- What an observer sees. `submitted` is the return of `thread_pool_submit` with 0 and
`rejected` its return with another code. `called` and `returned` are the call of a task's
function and its return. -/
inductive Event (n : Nat) (τ : Type) where
  | submitCall (c : Nat) (arg : τ)
  | enqueued (task : PoolTask τ)
  | submitted (c : Nat) (task : PoolTask τ)
  | rejected (c : Nat) (code : Int)
  | waitCall (c : Nat)
  | waitRet (c : Nat)
  | shutdownCall (c : Nat)
  | shutdownRet (c : Nat)
  | called (d : Fin n) (task : PoolTask τ)
  | returned (d : Fin n) (task : PoolTask τ)
deriving DecidableEq, Repr

/-- The move of a client thread: a new call when it is idle, else the next step of its call.
`fail` is an allocation that fails, and `wake d` is a signal that wakes the dispatcher `d`. -/
inductive ClientMove (n : Nat) (τ : Type) where
  | callSubmit (arg : τ)
  | callWait
  | callShutdown
  | go
  | fail
  | wake (d : Fin n)
deriving DecidableEq, Repr

/-- One step of one thread. -/
inductive Action (n : Nat) (τ : Type) where
  | dispatcher (d : Fin n)
  | client (c : Nat) (move : ClientMove n τ)
deriving DecidableEq, Repr

section
variable {n : Nat} {τ : Type}

/-- `pthread_mutex_lock(self->_mutex)`: it can step when no thread holds the mutex. -/
def Shared.lock (sh : Shared n τ) (t : Tid n) : Option (Shared n τ) :=
  if sh.mutex = none then some { sh with mutex := some t } else none

/-- `pthread_mutex_unlock(self->_mutex)`. -/
def Shared.unlock (sh : Shared n τ) : Shared n τ := { sh with mutex := none }

/-- `_dispatcher_function`, lines 65 to 109. -/
def dispatcherFunction (d : Fin n) (sh : Shared n τ) :
    DispatcherPc τ → Option (Shared n τ × DispatcherPc τ × Option (Event n τ))
  | .lock => (sh.lock (.dispatcher d)).map fun sh => (sh, .testEmpty, none)
  | .testEmpty => some (sh, if sh.queue.isEmpty then .testOn else .testOff, none)
  | .testOn => some (sh, if sh.on then .condWait else .testOff, none)
  | .condWait => some ({ sh.unlock with newTask := insert d sh.newTask }, .parked, none)
  | .parked =>
      if d ∈ sh.newTask then some ({ sh with newTask := sh.newTask.erase d }, .parked, none)
      else (sh.lock (.dispatcher d)).map fun sh => (sh, .testEmpty, none)
  | .testOff => some (sh, if sh.off then .unlockExit else .testOnExit, none)
  | .testOnExit => some (sh, if sh.on then .unlock else .testEmptyExit, none)
  | .testEmptyExit => some (sh, if sh.queue.isEmpty then .unlockExit else .unlock, none)
  | .unlockExit => some (sh.unlock, .exited, none)
  | .unlock => some (sh.unlock, .dequeue, none)
  | .dequeue =>
      -- An empty queue gives `task == NULL`, and the loop starts again.
      match sh.queue.dequeue with
      | (none, queue) => some ({ sh with queue := queue }, .lock, none)
      | (some task, queue) => some ({ sh with queue := queue }, .incrInFlight task, none)
  | .incrInFlight task =>
      some ({ sh with inFlight := sh.inFlight + 1 }, .callFunction task, none)
  | .callFunction task => some (sh, .running task, some (.called d task))
  | .running task => some (sh, .decrInFlight, some (.returned d task))
  | .decrInFlight => some ({ sh with inFlight := sh.inFlight - 1 }, .lockDone, none)
  | .lockDone => (sh.lock (.dispatcher d)).map fun sh => (sh, .broadcastDone, none)
  | .broadcastDone => some ({ sh with taskDone := ∅ }, .unlockDone, none)
  | .unlockDone => some (sh.unlock, .lock, none)
  | .exited => none

/-- `pthread_cond_signal(self->_new_task)`: one parked dispatcher wakes up, if there is any. -/
def Shared.signalNewTask (sh : Shared n τ) : ClientMove n τ → Option (Shared n τ)
  | .wake d => if d ∈ sh.newTask then some { sh with newTask := sh.newTask.erase d } else none
  | .go => if sh.newTask = ∅ then some sh else none
  | _ => none

/-- `thread_pool_submit`, lines 350 to 375. -/
def threadPoolSubmit (c : Nat) (sh : Shared n τ) :
    SubmitPc τ → ClientMove n τ → Option (Shared n τ × ClientPc τ × Option (Event n τ))
  | .loadOff arg, .go =>
      some (if sh.off then (sh, .idle, some (.rejected c 1)) else (sh, .submit (.malloc arg), none))
  | .malloc arg, .go => some (sh, .submit (.enqueue arg), none)
  | .malloc _, .fail => some (sh, .idle, some (.rejected c (-1)))
  | .enqueue arg, .go =>
      let task : PoolTask τ := ⟨sh.nextTask, arg⟩
      some ({ sh with queue := sh.queue.enqueue task, nextTask := sh.nextTask + 1 },
        .submit (.lock task), some (.enqueued task))
  | .enqueue _, .fail => some (sh, .idle, some (.rejected c (-1)))
  | .lock task, .go => (sh.lock (.client c)).map fun sh => (sh, .submit (.signal task), none)
  | .signal task, move =>
      (sh.signalNewTask move).map fun sh => (sh, .submit (.unlock task), none)
  | .unlock task, .go => some (sh.unlock, .idle, some (.submitted c task))
  | _, _ => none

/-- `thread_pool_wait`, lines 325 to 333. -/
def threadPoolWait (c : Nat) (sh : Shared n τ) :
    WaitPc → Option (Shared n τ × ClientPc τ × Option (Event n τ))
  | .lock => (sh.lock (.client c)).map fun sh => (sh, .wait .testEmpty, none)
  | .testEmpty =>
      some (sh, .wait (if sh.queue.isEmpty then .testInFlight else .condWait), none)
  | .testInFlight => some (sh, .wait (if sh.inFlight > 0 then .condWait else .unlock), none)
  | .condWait => some ({ sh.unlock with taskDone := insert c sh.taskDone }, .wait .parked, none)
  | .parked =>
      if c ∈ sh.taskDone then
        some ({ sh with taskDone := sh.taskDone.erase c }, .wait .parked, none)
      else (sh.lock (.client c)).map fun sh => (sh, .wait .testEmpty, none)
  | .unlock => some (sh.unlock, .idle, some (.waitRet c))

/-- `thread_pool_shutdown`, lines 300 to 314. `exited d` tells whether the dispatcher `d` has
returned, which is what `pthread_join` waits for. -/
def threadPoolShutdown (c : Nat) (exited : Fin n → Bool) (sh : Shared n τ) :
    ShutdownPc → Option (Shared n τ × ClientPc τ × Option (Event n τ))
  | .storeOn => some ({ sh with on := false }, .shutdown .storeOff, none)
  | .storeOff => some ({ sh with off := true }, .shutdown .lock, none)
  | .lock => (sh.lock (.client c)).map fun sh => (sh, .shutdown .broadcast, none)
  | .broadcast => some ({ sh with newTask := ∅ }, .shutdown .unlock, none)
  | .unlock => some (sh.unlock, .shutdown (.join 0), none)
  | .join i =>
      if h : i < n then
        if exited ⟨i, h⟩ then some (sh, .shutdown (.join (i + 1)), none) else none
      else some (sh, .idle, some (.shutdownRet c))

/-- A client thread: a new call, or the next step of the call it is in. -/
def clientFunction (c : Nat) (exited : Fin n → Bool) (sh : Shared n τ) :
    ClientPc τ → ClientMove n τ → Option (Shared n τ × ClientPc τ × Option (Event n τ))
  | .idle, .callSubmit arg => some (sh, .submit (.loadOff arg), some (.submitCall c arg))
  | .idle, .callWait => some (sh, .wait .lock, some (.waitCall c))
  | .idle, .callShutdown =>
      if sh.shutdownCalled then none
      else some ({ sh with shutdownCalled := true }, .shutdown .storeOn,
        some (.shutdownCall c))
  | .submit pc, move => threadPoolSubmit c sh pc move
  | .wait pc, .go => threadPoolWait c sh pc
  | .shutdown pc, .go => threadPoolShutdown c exited sh pc
  | _, _ => none

/-- The pool after `thread_pool_new`: every dispatcher is about to enter its loop. -/
def init : State n τ where
  shared :=
    { queue := [], mutex := none, newTask := ∅, taskDone := ∅, on := true, off := false,
      inFlight := 0, nextTask := 0, shutdownCalled := false }
  dispatcher := fun _ => .lock
  client := fun _ => .idle

/-- One step of the pool. -/
def next (s : State n τ) :
    Action n τ → Option (State n τ × Option (Event n τ))
  | .dispatcher d =>
      (dispatcherFunction d s.shared (s.dispatcher d)).map fun r =>
        ({ s with shared := r.1, dispatcher := Function.update s.dispatcher d r.2.1 }, r.2.2)
  | .client c move =>
      (clientFunction c (fun d => (s.dispatcher d).isExited) s.shared (s.client c) move).map
        fun r => ({ s with shared := r.1, client := Function.update s.client c r.2.1 }, r.2.2)

/-- The pool as a machine. -/
def machine (n : Nat) (τ : Type) :
    Machine (State n τ) (Action n τ) (Event n τ) where
  init := init
  next := next

end

end Miez.ThreadPool
