import Miez.GenericLinkedList

/-!
# `Miez.GenericLinkedList.Iterators`: iterators and the algorithms on a range

The functions of `src/generic_linked_list.c` that make an iterator, move it, and walk from one
iterator to another one. An iterator has the list it is on, told by the address of the list, and
the node at which it stands. A parameter that is NULL is `none`, and an out parameter tells if it
is set. `self` is the list of the iterator `begin`.

The loops go on while there is fuel, because on a heap that is not a list they may not end. A loop
without fuel has no result, like a function that reads a node that is not there.
-/

set_option autoImplicit false

namespace Miez.GenericLinkedList

open Miez.Lib

/-- `struct generic_linked_list_iterator_t`. -/
structure Iterator where
  list : Address
  currentNode : Address
deriving DecidableEq

variable {α : Type}

/-! ### Positions -/

/-- `generic_linked_list_iterator_begin`: the node of the new iterator. -/
def iteratorBegin (self : GenericLinkedList α) : Option Address := self.heap.next self.headGuard

/-- `generic_linked_list_iterator_end`. -/
def iteratorEnd (self : GenericLinkedList α) : Option Address := some self.tailGuard

/-- `generic_linked_list_iterator_reverse_begin`. -/
def iteratorReverseBegin (self : GenericLinkedList α) : Option Address :=
  self.heap.prev self.tailGuard

/-- `generic_linked_list_iterator_reverse_end`. -/
def iteratorReverseEnd (self : GenericLinkedList α) : Option Address := some self.headGuard

/-- `generic_linked_list_iterator_next`: the return code and the node after it. -/
def iteratorNext (self : GenericLinkedList α) (it : Address) : Option (Int × Address) :=
  if it = self.tailGuard then some (1, it)
  else (self.heap.next it).map fun next => (0, next)

/-- `generic_linked_list_iterator_prev`. -/
def iteratorPrev (self : GenericLinkedList α) (it : Address) : Option (Int × Address) :=
  if it = self.headGuard then some (1, it)
  else (self.heap.prev it).map fun prev => (0, prev)

/-- The nodes at which an iterator can stand: it is made at one of the four places and moved. -/
inductive Position (self : GenericLinkedList α) : Address → Prop where
  | begin {it : Address} (h : self.iteratorBegin = some it) : Position self it
  | endGuard {it : Address} (h : self.iteratorEnd = some it) : Position self it
  | reverseBegin {it : Address} (h : self.iteratorReverseBegin = some it) : Position self it
  | reverseEnd {it : Address} (h : self.iteratorReverseEnd = some it) : Position self it
  | next {it it' : Address} {code : Int} (hit : Position self it)
      (h : self.iteratorNext it = some (code, it')) : Position self it'
  | prev {it it' : Address} {code : Int} (hit : Position self it)
      (h : self.iteratorPrev it = some (code, it')) : Position self it'

/-! ### Ranges -/

/-- The loop of `generic_linked_list_iterator_distance`. -/
def distanceLoop (self : GenericLinkedList α) (endNode : Address) :
    Nat → Address → UInt64 → Option (Int × Option UInt64)
  | 0, _, _ => none
  | fuel + 1, current, distance =>
      if current ≠ 0 ∧ current ≠ endNode then
        if current = self.tailGuard then some (1, none)
        else do
          let next ← self.heap.next current
          self.distanceLoop endNode fuel next
            (if current ≠ self.headGuard then distance + 1 else distance)
      else some (0, some distance)

/-- `generic_linked_list_iterator_distance`: the return code and `*out_distance` when it is
written. -/
def iteratorDistance (self : GenericLinkedList α) (fuel : Nat) (begin endIt : Option Iterator)
    (outDistance : Bool) : Option (Int × Option UInt64) :=
  match begin, endIt with
  | some begin, some endIt =>
      if outDistance = false then some (1, none)
      else if begin.list ≠ endIt.list then some (1, none)
      else self.distanceLoop endIt.currentNode fuel begin.currentNode 0
  | _, _ => some (1, none)

/-- A new iterator of `generic_linked_list_iterator_find`, or -1 when `malloc` fails. -/
def newIterator (allocated : Bool) (it : Iterator) : Int × Option Iterator :=
  if allocated then (0, some it) else (-1, none)

/-- The loop of `generic_linked_list_iterator_find`. -/
def findLoop (self : GenericLinkedList α) (begin endIt : Iterator) (target : Option α)
    (compare : Option α → Option α → Int) (allocated : Bool) :
    Nat → Address → Option (Int × Option Iterator)
  | 0, _ => none
  | fuel + 1, current =>
      if current ≠ 0 ∧ current ≠ endIt.currentNode then
        if self.atGuard current then do
          let next ← self.heap.next current
          self.findLoop begin endIt target compare allocated fuel next
        else do
          let data ← (self.heap current).map Cell.data
          if compare data target = 0 then
            some (newIterator allocated ⟨begin.list, current⟩)
          else
            let next ← self.heap.next current
            self.findLoop begin endIt target compare allocated fuel next
      else some (newIterator allocated ⟨endIt.list, endIt.currentNode⟩)

/-- `generic_linked_list_iterator_find`: the return code and `*out_found` when it is written. -/
def iteratorFindIn (self : GenericLinkedList α) (fuel : Nat) (begin endIt : Option Iterator)
    (target : Option α) (compare : Option (Option α → Option α → Int)) (outFound : Bool)
    (allocated : Bool) : Option (Int × Option Iterator) :=
  match begin, endIt, compare with
  | some begin, some endIt, some compare =>
      if outFound = false then some (1, none)
      else if begin.list ≠ endIt.list then some (1, none)
      else self.findLoop begin endIt target compare allocated fuel begin.currentNode
  | _, _, _ => some (1, none)

/-- The loop of `generic_linked_list_iterator_for_each`: the data `apply` is called on. -/
def forEachLoop (self : GenericLinkedList α) (endNode : Address) :
    Nat → Address → List (Option α) → Option (Int × List (Option α))
  | 0, _, _ => none
  | fuel + 1, current, applied =>
      if current ≠ 0 ∧ current ≠ endNode ∧ current ≠ self.tailGuard then do
        let data ← (self.heap current).map Cell.data
        let next ← self.heap.next current
        self.forEachLoop endNode fuel next (applied ++ [data])
      else some (0, applied)

/-- `generic_linked_list_iterator_for_each`: the return code and the calls of `apply`. -/
def iteratorForEachIn (self : GenericLinkedList α) (fuel : Nat) (begin endIt : Option Iterator)
    (apply : Bool) : Option (Int × List (Option α)) :=
  match begin, endIt with
  | some begin, some endIt =>
      if apply = false then some (1, [])
      else if begin.list ≠ endIt.list then some (1, [])
      else self.forEachLoop endIt.currentNode fuel begin.currentNode []
  | _, _ => some (1, [])

end Miez.GenericLinkedList
