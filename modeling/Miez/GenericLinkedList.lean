import Miez.Lib.Heap
import Miez.Lib.Machine

/-!
# `Miez.GenericLinkedList`: the doubly linked list on a heap

`src/generic_linked_list.c`. The nodes are cells of a heap under 64-bit addresses, where 0 is
NULL. A list has two guard nodes, and its elements are the nodes between them. The functions take
a list that is not NULL. A function that reads or writes a node that is not there has no result.

`malloc` gives an address that is not in use, or 0 when it fails. A copy callback gives its exit
code and the pointer it has written. The data of a node is a pointer, and `none` is NULL. A result
tells the return code, what has been written to `*out_data`, the data that was given to
`_free_function`, and the node at which an iterator stands afterwards.
-/

set_option autoImplicit false

namespace Miez

open Miez.Lib

/-- The address of a node. -/
abbrev Address : Type := UInt64

/-- `struct generic_linked_list_t` and its nodes. The two callbacks are set or not set. -/
structure GenericLinkedList (α : Type) where
  size : UInt64
  headGuard : Address
  tailGuard : Address
  freeFunction : Bool
  copyFunction : Bool
  heap : Heap Address (Option α)

namespace GenericLinkedList

variable {α : Type}

/-- What a call returns. -/
structure Result (α : Type) where
  code : Int
  outData : Option (Option α)
  freed : Option α
  iterator : Option Address
deriving DecidableEq

/-- A return code without anything else. -/
def exitCode (code : Int) : Result α := ⟨code, none, none, none⟩

/-- `generic_linked_list_new` with the addresses of the two guards. -/
def new (headGuard tailGuard : Address) : GenericLinkedList α where
  size := 0
  headGuard := headGuard
  tailGuard := tailGuard
  freeFunction := false
  copyFunction := false
  heap := Heap.alloc (Heap.alloc (fun _ => none) headGuard ⟨none, tailGuard, 0⟩)
    tailGuard ⟨none, 0, headGuard⟩

/-- The data of a new node: the copy when there is a copy function. -/
def newData (self : GenericLinkedList α) (data : Option α) (copied : Int × Option α) : Option α :=
  if self.copyFunction then copied.2 else data

/-- `generic_linked_list_insert_first`. -/
def insertFirst (self : GenericLinkedList α) (data : Option α) (newNode : Address)
    (copied : Int × Option α) : Option (Result α × GenericLinkedList α) :=
  if newNode = 0 then some (exitCode (-1), self)
  else if self.copyFunction ∧ copied.1 ≠ 0 then some (exitCode copied.1, self)
  else do
    let heap := self.heap.alloc newNode ⟨self.newData data copied, 0, 0⟩
    let next ← heap.next self.headGuard
    let heap ← heap.setNext newNode next
    let next ← heap.next self.headGuard
    let heap ← heap.setPrev next newNode
    let heap ← heap.setPrev newNode self.headGuard
    let heap ← heap.setNext self.headGuard newNode
    some (exitCode 0, { self with heap := heap, size := self.size + 1 })

/-- `generic_linked_list_insert_last`. -/
def insertLast (self : GenericLinkedList α) (data : Option α) (newNode : Address)
    (copied : Int × Option α) : Option (Result α × GenericLinkedList α) :=
  if newNode = 0 then some (exitCode (-1), self)
  else if self.copyFunction ∧ copied.1 ≠ 0 then some (exitCode copied.1, self)
  else do
    let heap := self.heap.alloc newNode ⟨self.newData data copied, 0, 0⟩
    let prev ← heap.prev self.tailGuard
    let heap ← heap.setPrev newNode prev
    let prev ← heap.prev self.tailGuard
    let heap ← heap.setNext prev newNode
    let heap ← heap.setNext newNode self.tailGuard
    let heap ← heap.setPrev self.tailGuard newNode
    some (exitCode 0, { self with heap := heap, size := self.size + 1 })

/-- The result of a removal: the data goes to `*out_data`, or to `_free_function` when it is not
NULL. -/
def removed (outData : Bool) (data : Option α) (iterator : Option Address) : Result α :=
  if outData then ⟨0, some data, none, iterator⟩ else ⟨0, none, data, iterator⟩

/-- `generic_linked_list_remove_first`. -/
def removeFirst (self : GenericLinkedList α) (outData : Bool) :
    Option (Result α × GenericLinkedList α) :=
  if self.size = 0 then some (⟨0, if outData then some none else none, none, none⟩, self)
  else if outData = false ∧ self.freeFunction = false then some (exitCode 1, self)
  else do
    let toRemove ← self.heap.next self.headGuard
    let data ← (self.heap toRemove).map Cell.data
    let next ← self.heap.next toRemove
    let heap ← self.heap.setNext self.headGuard next
    let next ← heap.next toRemove
    let heap ← heap.setPrev next self.headGuard
    some (removed outData data none,
      { self with heap := heap.free toRemove, size := self.size - 1 })

/-- `generic_linked_list_remove_last`. -/
def removeLast (self : GenericLinkedList α) (outData : Bool) :
    Option (Result α × GenericLinkedList α) :=
  if self.size = 0 then some (⟨0, if outData then some none else none, none, none⟩, self)
  else if outData = false ∧ self.freeFunction = false then some (exitCode 1, self)
  else do
    let toRemove ← self.heap.prev self.tailGuard
    let data ← (self.heap toRemove).map Cell.data
    let prev ← self.heap.prev toRemove
    let heap ← self.heap.setPrev self.tailGuard prev
    let prev ← heap.prev toRemove
    let heap ← heap.setNext prev self.tailGuard
    some (removed outData data none,
      { self with heap := heap.free toRemove, size := self.size - 1 })

/-- The iterator is at a guard. -/
def atGuard (self : GenericLinkedList α) (it : Address) : Bool :=
  it = self.headGuard ∨ it = self.tailGuard

/-- `generic_linked_list_iterator_remove` with an iterator at `it`. -/
def iteratorRemove (self : GenericLinkedList α) (it : Address) (outData : Bool) :
    Option (Result α × GenericLinkedList α) :=
  if self.atGuard it then some (⟨1, none, none, some it⟩, self)
  else if outData = false ∧ self.freeFunction = false then some (⟨1, none, none, some it⟩, self)
  else do
    let nextNode ← self.heap.next it
    let data ← (self.heap it).map Cell.data
    let prev ← self.heap.prev it
    let next ← self.heap.next it
    let heap ← self.heap.setNext prev next
    let next ← heap.next it
    let prev ← heap.prev it
    let heap ← heap.setPrev next prev
    some (removed outData data (some nextNode),
      { self with heap := heap.free it, size := self.size - 1 })

/-- A call of a function that changes the list. -/
inductive Call (α : Type) where
  | setFreeFunction (set : Bool)
  | setCopyFunction (set : Bool)
  | insertFirst (data : Option α) (newNode : Address) (copied : Int × Option α)
  | insertLast (data : Option α) (newNode : Address) (copied : Int × Option α)
  | removeFirst (outData : Bool)
  | removeLast (outData : Bool)
  | iteratorRemove (it : Address) (outData : Bool)
deriving DecidableEq

/-- A call and its result. -/
def run (self : GenericLinkedList α) : Call α → Option (Result α × GenericLinkedList α)
  | .setFreeFunction set => some (exitCode 0, { self with freeFunction := set })
  | .setCopyFunction set => some (exitCode 0, { self with copyFunction := set })
  | .insertFirst data newNode copied => self.insertFirst data newNode copied
  | .insertLast data newNode copied => self.insertLast data newNode copied
  | .removeFirst outData => self.removeFirst outData
  | .removeLast outData => self.removeLast outData
  | .iteratorRemove it outData => self.iteratorRemove it outData

/-- `malloc` gives an address that is not in use, and an iterator stands at a node of the list. -/
def canCall (self : GenericLinkedList α) : Call α → Bool
  | .insertFirst _ newNode _ => newNode = 0 ∨ (self.heap newNode).isNone
  | .insertLast _ newNode _ => newNode = 0 ∨ (self.heap newNode).isNone
  | .iteratorRemove it _ => (self.heap it).isSome
  | _ => true

/-- The addresses of the guards of a new list. -/
structure Guards where
  head : Address
  tail : Address
  head_ne_zero : head ≠ 0
  tail_ne_zero : tail ≠ 0
  head_ne_tail : head ≠ tail

/-- The calls on a new list, one after the other. -/
def machine (α : Type) (guards : Guards) :
    Machine (GenericLinkedList α) (Call α) (Call α × Result α) where
  init := new guards.head guards.tail
  next := fun self call =>
    if self.canCall call then
      (self.run call).map fun r => (r.2, some (call, r.1))
    else none

end GenericLinkedList

end Miez
