import Miez.GenericQueue

/-!
# `Miez.GenericLinkedList.Lifetime`: the whole life of a list or a queue

`generic_linked_list_free`, `generic_queue_clear`, and the queue's operations with any copy
function and with or without `out_data`. `operate` is any call on a list or on the list of a queue,
and `lifetime` is the machine of all such calls, up to the final free, on a list with a fixed free
function and with or without a copy function. `operateAt` is a call through a pointer that may be
NULL.

The loops of `free` and `clear` remove one node in each round, so `_size + 1` rounds are enough.
-/

set_option autoImplicit false

namespace Miez

open Miez.Lib

namespace GenericLinkedList

variable {α : Type}

/-- The loop of `generic_linked_list_free`: the data given to `_free_function`, and the heap
without the nodes. -/
def freeLoop (freeFunction : Bool) (tailGuard : Address) :
    Nat → Heap Address (Option α) → Address → Option (List α × Heap Address (Option α))
  | 0, _, _ => none
  | rounds + 1, heap, current =>
      if current ≠ tailGuard then do
        let next ← heap.next current
        let data ← (heap current).map Cell.data
        let (freed, heap) ← freeLoop freeFunction tailGuard rounds (heap.free current) next
        some ((if freeFunction then data.toList else []) ++ freed, heap)
      else some ([], heap)

/-- `generic_linked_list_free`. -/
def free (self : GenericLinkedList α) : Option (List α × Heap Address (Option α)) := do
  let (freed, heap) ←
    if self.headGuard ≠ 0 ∧ self.tailGuard ≠ 0 then do
      let current ← self.heap.next self.headGuard
      freeLoop self.freeFunction self.tailGuard (self.size.toNat + 1) self.heap current
    else some ([], self.heap)
  some (freed, (heap.free self.headGuard).free self.tailGuard)

end GenericLinkedList

namespace GenericQueue

variable {α : Type}

/-- `generic_queue_enqueue` with any copy function. -/
def enqueueCopied (self : GenericQueue α) (data : Option α) (newNode : Address)
    (copied : Int × Option α) : Option (GenericLinkedList.Result α × GenericQueue α) :=
  self.insertLast data newNode copied

/-- `generic_queue_dequeue` with or without `out_data`. -/
def dequeueInto (self : GenericQueue α) (outData : Bool) :
    Option (GenericLinkedList.Result α × GenericQueue α) :=
  self.removeFirst outData

/-- The loop of `generic_queue_clear`: the return code, the data given to `_free_function`, and
the queue. -/
def clearLoop : Nat → GenericQueue α → Option (Int × List α × GenericQueue α)
  | 0, _ => none
  | rounds + 1, self =>
      if isEmpty self = 0 then do
        let (r, queue) ← self.removeFirst false
        if r.code ≠ 0 then some (r.code, r.freed.toList, queue)
        else do
          let (code, freed, queue) ← clearLoop rounds queue
          some (code, r.freed.toList ++ freed, queue)
      else some (0, [], self)

/-- `generic_queue_clear`. -/
def clear (self : GenericQueue α) : Option (Int × List α × GenericQueue α) :=
  clearLoop (self.size.toNat + 1) self

end GenericQueue

namespace GenericLinkedList

variable {α : Type}

/-! ### Calls on a list or a queue -/

/-- A call on a list, or on the list of a queue. -/
inductive Operation (α : Type) where
  | list (call : Call α)
  | enqueue (data : Option α) (newNode : Address) (copied : Int × Option α)
  | dequeue (outData : Bool)
  | clear
  | free
deriving DecidableEq

/-- What a call gives: its return code, what it has written to `*out_data`, the data given to
`_free_function`, and the node of the iterator. -/
structure Outcome (α : Type) where
  code : Int
  outData : Option (Option α)
  freed : List α
  iterator : Option Address
deriving DecidableEq

/-- The outcome of a call that frees at most one datum. -/
def Result.outcome (r : Result α) : Outcome α := ⟨r.code, r.outData, r.freed.toList, r.iterator⟩

/-- A call and its outcome. There is no list after `free`. -/
def operate (self : GenericLinkedList α) :
    Operation α → Option (Outcome α × Option (GenericLinkedList α))
  | .list call => (self.run call).map fun r => (r.1.outcome, some r.2)
  | .enqueue data newNode copied =>
      (GenericQueue.enqueueCopied self data newNode copied).map fun r => (r.1.outcome, some r.2)
  | .dequeue outData =>
      (GenericQueue.dequeueInto self outData).map fun r => (r.1.outcome, some r.2)
  | .clear => (GenericQueue.clear self).map fun r => (⟨r.1, none, r.2.1, none⟩, some r.2.2)
  | .free => self.free.map fun r => (⟨0, none, r.1, none⟩, none)

/-- A call through a pointer, which is refused when it is NULL. -/
def operateAt (self : Option (GenericLinkedList α)) (operation : Operation α) :
    Option (Outcome α × Option (GenericLinkedList α)) :=
  match self with
  | none => some (⟨1, none, [], none⟩, none)
  | some list => list.operate operation

/-! ### The machine -/

/-- The free function and the copy function are fixed, `malloc` gives an address that is not in
use, and an iterator stands at a node of the list. -/
def canOperate (self : GenericLinkedList α) : Operation α → Bool
  | .list (.setFreeFunction _) | .list (.setCopyFunction _) => false
  | .list call => self.canCall call
  | .enqueue data newNode copied => self.canCall (.insertLast data newNode copied)
  | _ => true

/-- The calls on a new list with a free function, from its creation to its end. -/
def lifetime (α : Type) (guards : Guards) (copyFunction : Bool) :
    Machine (Option (GenericLinkedList α)) (Operation α) (Operation α × Outcome α) where
  init := some { new guards.head guards.tail with
    freeFunction := true
    copyFunction := copyFunction }
  next := fun self operation =>
    self.bind fun list =>
      if list.canOperate operation then
        (list.operate operation).map fun r => (r.2, some (operation, r.1))
      else none

end GenericLinkedList

end Miez
