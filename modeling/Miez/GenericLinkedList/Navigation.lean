import Miez.GenericLinkedList.Iterators
import Miez.GenericQueue

/-!
# `Miez.GenericLinkedList.Navigation`: iterators that move many steps, and loops of a client

`generic_linked_list_iterator_advance` and its reverse, and the loops that `tests/` writes with an
iterator: the traversal in each direction, and the removal of elements during a traversal. The
counter of `advance` goes up to its parameter, so the number of rounds left is its recursion. The
loops of a client go on while there is fuel.
-/

set_option autoImplicit false

namespace Miez.GenericLinkedList

open Miez.Lib

variable {α : Type}

/-! ### Moves -/

/-- `generic_linked_list_iterator_is_end`: 0 at the tail guard. -/
def iteratorIsEnd (self : GenericLinkedList α) (it : Address) : Int :=
  if it = self.tailGuard then 0 else 1

/-- The loop of `generic_linked_list_iterator_advance` with the rounds that are left. -/
def advanceLoop (self : GenericLinkedList α) : Nat → Address → Option Address
  | 0, current => some current
  | rounds + 1, current =>
      if current ≠ self.tailGuard then (self.heap.next current).bind (self.advanceLoop rounds)
      else some current

/-- `generic_linked_list_iterator_advance`: the return code and the node after it. -/
def iteratorAdvance (self : GenericLinkedList α) (it : Address) (n : UInt64) :
    Option (Int × Address) :=
  (self.advanceLoop n.toNat it).map fun node => (0, node)

/-- The loop of `generic_linked_list_iterator_reverse_advance` with the rounds that are left. -/
def reverseAdvanceLoop (self : GenericLinkedList α) : Nat → Address → Option Address
  | 0, current => some current
  | rounds + 1, current =>
      if current ≠ self.headGuard then
        (self.heap.prev current).bind (self.reverseAdvanceLoop rounds)
      else some current

/-- `generic_linked_list_iterator_reverse_advance`. -/
def iteratorReverseAdvance (self : GenericLinkedList α) (it : Address) (n : UInt64) :
    Option (Int × Address) :=
  (self.reverseAdvanceLoop n.toNat it).map fun node => (0, node)

/-- A number of calls of `move`, whose return codes are not looked at. -/
def repeated (move : Address → Option (Int × Address)) : Nat → Address → Option Address
  | 0, it => some it
  | k + 1, it => (move it).bind fun r => repeated move k r.2

/-! ### Loops of a client -/

/-- The data that a client reads while it moves an iterator with `move`, as long as
`generic_linked_list_iterator_is_valid` gives 0. -/
def traverse (self : GenericLinkedList α) (move : Address → Option (Int × Address)) :
    Nat → Address → Option (List (Option α))
  | 0, _ => none
  | rounds + 1, it =>
      if self.iteratorIsValid it = 0 then do
        let (_, data) ← self.iteratorGet it
        let (_, next) ← move it
        let rest ← self.traverse move rounds next
        some (data :: rest)
      else some []

/-- What a removal during a traversal has done: the nodes it has looked at with their data, the
data given to `_free_function`, the node of the iterator, and the list. -/
structure Removal (α : Type) where
  examined : List (Address × Option α)
  freed : List α
  iterator : Address
  list : GenericLinkedList α

/-- The step of `removeLoop` at a node: a removal without `out_data` or a move to the next node.
It gives what was freed, the node of the iterator and the list. -/
def removeOrNext (self : GenericLinkedList α) (it : Address) (remove : Bool) :
    Option (Option α × Address × GenericLinkedList α) :=
  if remove then
    (self.iteratorRemove it false).map fun r => (r.1.freed, r.1.iterator.getD it, r.2)
  else (self.iteratorNext it).map fun r => (none, r.2, self)

/-- The loop of `generic_linked_list_iterator_remove_while_iterating_test`: until the tail guard,
an element that satisfies `P` is removed, and the iterator moves on at the others. -/
def removeLoop (P : Option α → Bool) : Nat → GenericLinkedList α → Address → Option (Removal α)
  | 0, _, _ => none
  | rounds + 1, self, it =>
      if self.iteratorIsEnd it ≠ 0 then do
        let (_, data) ← self.iteratorGet it
        let (freed, next, list) ← self.removeOrNext it (P data)
        let rest ← removeLoop P rounds list next
        some { rest with
          examined := (it, data) :: rest.examined
          freed := freed.toList ++ rest.freed }
      else some ⟨[], [], it, self⟩

end Miez.GenericLinkedList
