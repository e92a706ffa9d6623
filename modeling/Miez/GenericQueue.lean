import Miez.GenericLinkedList

/-!
# `Miez.GenericQueue`: the queue over the linked list, and its synchronised form

`src/generic_queue.c` is a linked list with the front at the head guard. `peek` reads through a
forward iterator, `peek_rear` through a backward one, and `contains` and `for_each` walk from the
first node to the tail guard. `src/generic_queue_syn.c` runs each operation in one section of its
mutex, so an operation of a thread is one step (`machine`).

The loops of `contains` and `for_each` have a number of rounds as fuel. They visit each node once,
so `_size + 1` rounds are enough, and no run of the machine is out of fuel.
-/

set_option autoImplicit false

namespace Miez

open Miez.Lib

namespace GenericLinkedList

variable {α : Type}

/-- `generic_linked_list_iterator_is_valid`: 0 at an element and 1 at a guard. -/
def iteratorIsValid (self : GenericLinkedList α) (it : Address) : Int :=
  if self.atGuard it then 1 else 0

/-- `generic_linked_list_iterator_get`: the return code and `*out_data`. -/
def iteratorGet (self : GenericLinkedList α) (it : Address) : Option (Int × Option α) :=
  if self.atGuard it then some (1, none) else (self.heap it).map fun cell => (0, cell.data)

/-- The loop of `generic_linked_list_iterator_find` up to the node `stop`. It gives the node of
the iterator that the function returns, which is `stop` when nothing was found. -/
def iteratorFind (self : GenericLinkedList α) (stop : Address) (target : Option α)
    (compare : Option α → Option α → Int) : Nat → Address → Option Address
  | 0, _ => none
  | rounds + 1, current =>
      if current = 0 ∨ current = stop then some stop
      else (self.heap current).bind fun cell =>
        if self.atGuard current then self.iteratorFind stop target compare rounds cell.next
        else if compare cell.data target = 0 then some current
        else self.iteratorFind stop target compare rounds cell.next

/-- The loop of `generic_linked_list_iterator_for_each` up to the node `stop`: the data that
`apply` was called with. -/
def iteratorForEach (self : GenericLinkedList α) (stop : Address) :
    Nat → Address → Option (List (Option α))
  | 0, _ => none
  | rounds + 1, current =>
      if current = 0 ∨ current = stop ∨ current = self.tailGuard then some []
      else (self.heap current).bind fun cell =>
        (self.iteratorForEach stop rounds cell.next).map fun rest => cell.data :: rest

end GenericLinkedList

/-- `struct generic_queue_t`. -/
abbrev GenericQueue (α : Type) : Type := GenericLinkedList α

namespace GenericQueue

variable {α : Type}

/-- An operation of the queue. `dequeue`, `peek` and `peekRear` have an out parameter that is not
NULL. -/
inductive Operation (α : Type) where
  | enqueue (data : Option α)
  | dequeue
  | peek
  | peekRear
  | size
  | isEmpty
  | contains (target : Option α) (compare : Option α → Option α → Int)
  | forEach

/-- What an operation gives: its return code, and what it has written to its out parameter or
called `apply` with. -/
inductive Answer (α : Type) where
  | code (code : Int)
  | data (code : Int) (outData : Option α)
  | size (code : Int) (outSize : UInt64)
  | applied (code : Int) (data : List (Option α))
deriving DecidableEq

/-- `generic_queue_is_empty`. -/
def isEmpty (self : GenericQueue α) : Int := if self.size = 0 then 1 else 0

/-- `generic_queue_enqueue` with the node that `malloc` gave. -/
def enqueue (self : GenericQueue α) (data : Option α) (newNode : Address) :
    Option (Answer α × GenericQueue α) :=
  (self.insertLast data newNode (0, data)).map fun r => (.code r.1.code, r.2)

/-- `generic_queue_dequeue`. -/
def dequeue (self : GenericQueue α) : Option (Answer α × GenericQueue α) :=
  (self.removeFirst true).map fun r => (.data r.1.code (r.1.outData.getD none), r.2)

/-- `generic_queue_peek`. -/
def peek (self : GenericQueue α) : Option (Answer α) :=
  if self.isEmpty ≠ 0 then some (.data 0 none)
  else (self.heap.next self.headGuard).bind fun it =>
    (self.iteratorGet it).map fun r => .data r.1 r.2

/-- `generic_queue_peek_rear`. -/
def peekRear (self : GenericQueue α) : Option (Answer α) :=
  if self.isEmpty ≠ 0 then some (.data 0 none)
  else (self.heap.prev self.tailGuard).bind fun it =>
    (self.iteratorGet it).map fun r => .data r.1 r.2

/-- `generic_queue_contains`. -/
def contains (self : GenericQueue α) (target : Option α) (compare : Option α → Option α → Int) :
    Option (Answer α) :=
  (self.heap.next self.headGuard).bind fun it =>
    (self.iteratorFind self.tailGuard target compare (self.size.toNat + 1) it).map fun found =>
      .code (if self.iteratorIsValid found = 0 then 1 else 0)

/-- `generic_queue_for_each`. -/
def forEach (self : GenericQueue α) : Option (Answer α) :=
  (self.heap.next self.headGuard).bind fun it =>
    (self.iteratorForEach self.tailGuard (self.size.toNat + 1) it).map fun data => .applied 0 data

/-- An operation, with the node that `malloc` gives to an `enqueue`. -/
def run (self : GenericQueue α) (newNode : Address) :
    Operation α → Option (Answer α × GenericQueue α)
  | .enqueue data => self.enqueue data newNode
  | .dequeue => self.dequeue
  | .peek => self.peek.map fun answer => (answer, self)
  | .peekRear => self.peekRear.map fun answer => (answer, self)
  | .size => some (.size 0 self.size, self)
  | .isEmpty => some (.code self.isEmpty, self)
  | .contains target compare => (self.contains target compare).map fun answer => (answer, self)
  | .forEach => self.forEach.map fun answer => (answer, self)

/-! ### The synchronised queue -/

/-- The queue and the operation that each thread has called. -/
structure State (α : Type) where
  queue : GenericQueue α
  pc : Nat → Option (Operation α)

/-- A thread calls an operation, or runs its section of the mutex. -/
inductive Action (α : Type) where
  | call (t : Nat) (operation : Operation α)
  | lockSection (t : Nat) (newNode : Address)

/-- What an observer sees: the calls, and the operations in the order of their sections. -/
inductive Event (α : Type) where
  | called (t : Nat) (operation : Operation α)
  | done (t : Nat) (operation : Operation α) (answer : Answer α)

/-- `malloc` gives an `enqueue` an address that is not in use. -/
def hasNode (self : GenericQueue α) (newNode : Address) : Operation α → Bool
  | .enqueue _ => newNode ≠ 0 ∧ (self.heap newNode).isNone
  | _ => true

/-- The threads at a new queue without a copy function. -/
def machine (α : Type) (guards : GenericLinkedList.Guards) :
    Machine (State α) (Action α) (Event α) where
  init := ⟨.new guards.head guards.tail, fun _ => none⟩
  next := fun s a => match a with
    | .call t operation =>
        if (s.pc t).isNone then
          some ({ s with pc := Function.update s.pc t (some operation) },
            some (.called t operation))
        else none
    | .lockSection t newNode =>
        (s.pc t).bind fun operation =>
          if hasNode s.queue newNode operation then
            (GenericQueue.run s.queue newNode operation).map fun r =>
              (⟨r.2, Function.update s.pc t none⟩, some (.done t operation r.1))
          else none

end GenericQueue

end Miez
