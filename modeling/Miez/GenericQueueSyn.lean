/-!
# `Miez.GenericQueueSyn`: the synchronised queue

`generic_queue_syn` (`src/generic_queue_syn.c`) wraps `generic_queue`
(`src/generic_queue.c`) in a mutex. Each operation takes the mutex, runs the operation of the
plain queue and gives the mutex back, so an operation is one step for the other threads. The
plain queue is a linked list with the front at `_head_guard->next`; here it is the list of its
data, front first.

The operations take a non-NULL queue. No queue of the broker has a copy function, so
`enqueue` stores the pointer it is given.
-/

set_option autoImplicit false

namespace Miez

/-- The contents of a `generic_queue_syn`, front first. -/
abbrev GenericQueueSyn (α : Type) : Type := List α

namespace GenericQueueSyn

variable {α : Type}

/-- `generic_queue_syn_size`. -/
def size (q : GenericQueueSyn α) : Nat := q.length

/-- `generic_queue_syn_is_empty`: the source returns 1 for `true` and 0 for `false`. -/
def isEmpty (q : GenericQueueSyn α) : Bool := q.size == 0

/-- `generic_queue_syn_enqueue` when the allocation of the node succeeds. -/
def enqueue (q : GenericQueueSyn α) (data : α) : GenericQueueSyn α := q ++ [data]

/-- `generic_queue_syn_dequeue`. On an empty queue it also returns 0, with `*out_data` NULL,
and the queue stays as it is. -/
def dequeue : GenericQueueSyn α → Option α × GenericQueueSyn α
  | [] => (none, [])
  | data :: rest => (some data, rest)

@[simp] theorem size_eq_length (q : GenericQueueSyn α) : q.size = List.length q := rfl

@[simp] theorem isEmpty_iff (q : GenericQueueSyn α) : q.isEmpty = true ↔ q = [] := by
  cases q <;> simp [isEmpty, size]

@[simp] theorem isEmpty_eq_false_iff (q : GenericQueueSyn α) : q.isEmpty = false ↔ q ≠ [] := by
  cases q <;> simp [isEmpty, size]

@[simp] theorem enqueue_eq (q : GenericQueueSyn α) (data : α) : q.enqueue data = q ++ [data] :=
  rfl

@[simp] theorem dequeue_nil : dequeue ([] : GenericQueueSyn α) = (none, []) := rfl

@[simp] theorem dequeue_cons (data : α) (rest : GenericQueueSyn α) :
    dequeue (data :: rest) = (some data, rest) := rfl

end GenericQueueSyn

end Miez
