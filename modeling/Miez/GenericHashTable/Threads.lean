import Miez.GenericHashTable.Calls
import Miez.Lib.Machine

/-!
# `Miez.GenericHashTable.Threads`: several threads at one hash table

A thread calls one of the functions of the table. The part of an `insert` before the mutex, with
its copies, belongs to the call. The section of a bucket mutex is one step, and so is the atomic
read of `_size` in `generic_hash_table_get_size` and `generic_hash_table_is_empty`.

Every list node has an address of its own, and an address is a 64-bit number that is not NULL. So
`malloc` has no node left when `2 ^ 64 - 1` of them are in use.
-/

set_option autoImplicit false

namespace Miez.GenericHashTable

open Miez.Lib

variable {κ ν : Type}

/-- The result of a call that returns before it takes a mutex. -/
def beforeLock : Call κ ν → Option (Result ν)
  | .insert none _ _ => some ⟨1, none⟩
  | .insert (some _) _ env =>
      if env.malloc = false then some ⟨-1, none⟩
      else if env.copyKey.1 ≠ 0 then some ⟨env.copyKey.1, none⟩
      else if env.copyValue.1 ≠ 0 then some ⟨env.copyValue.1, none⟩
      else none
  | .get none _ _ => some ⟨1, none⟩
  | .get (some _) false _ => some ⟨1, none⟩
  | .get (some _) true _ => none
  | .delete none _ => some ⟨1, none⟩
  | .delete (some _) _ => none
  | .contains none _ => some ⟨1, none⟩
  | .contains (some _) _ => none

/-- The section of a call that takes a mutex. -/
def lockSection (t : GenericHashTable κ ν) : Call κ ν → Option (Result ν × GenericHashTable κ ν)
  | .insert (some key) _ env =>
      t.insertSection (t.bucketIndex key) (env.copyKey.2, env.copyValue.2) env.mallocNode
  | .get (some key) true iterator => t.getSection key iterator
  | .delete (some key) iterator => t.deleteSection key iterator
  | .contains (some key) iterator => t.containsSection key iterator
  | _ => none

/-- `generic_hash_table_get_size`. -/
def getSize (t : GenericHashTable κ ν) : UInt64 := t.size

/-- `generic_hash_table_is_empty`. -/
def isEmpty (t : GenericHashTable κ ν) : Int := if t.size = 0 then 1 else 0

/-- The table, the call that each thread is in, and the number of list nodes in use. -/
structure State (κ ν : Type) where
  table : GenericHashTable κ ν
  pc : Nat → Option (Call κ ν)
  nodes : Nat

/-- One step of the thread `t`: a call, the section of its call, or a read of `_size`. -/
inductive Action (κ ν : Type) where
  | call (t : Nat) (call : Call κ ν)
  | lockSection (t : Nat)
  | getSize (t : Nat)
  | isEmpty (t : Nat)

/-- What an observer sees: the results of the calls in the order of their last steps. -/
inductive Event (κ ν : Type) where
  | returned (t : Nat) (call : Call κ ν) (r : Result ν)
  | size (t : Nat) (size : UInt64)
  | empty (t : Nat) (code : Int)
deriving DecidableEq

/-- The number of nodes in use after a call. -/
def nodesAfter (nodes : Nat) : Call κ ν → Result ν → Nat
  | .insert _ _ _, r => if r.code = 0 then nodes + 1 else nodes
  | .delete _ _, r => if r.code = 0 then nodes - 1 else nodes
  | _, _ => nodes

/-- `malloc` has a node for the call. -/
def hasNode (nodes : Nat) : Call κ ν → Bool
  | .insert _ _ env => !env.mallocNode || nodes < 2 ^ 64 - 1
  | _ => true

/-- One step. -/
def next (s : State κ ν) : Action κ ν → Option (State κ ν × Option (Event κ ν))
  | .call t call =>
      match s.pc t, beforeLock call with
      | none, some r => some (s, some (.returned t call r))
      | none, none => some ({ s with pc := Function.update s.pc t (some call) }, none)
      | some _, _ => none
  | .lockSection t =>
      match s.pc t with
      | none => none
      | some call =>
          if hasNode s.nodes call then
            (s.table.lockSection call).map fun r =>
              ({ table := r.2, pc := Function.update s.pc t none,
                 nodes := nodesAfter s.nodes call r.1 }, some (.returned t call r.1))
          else none
  | .getSize t =>
      if (s.pc t).isNone then some (s, some (.size t s.table.getSize)) else none
  | .isEmpty t =>
      if (s.pc t).isNone then some (s, some (.empty t s.table.isEmpty)) else none

/-- The threads at a new table. -/
def machine (capacity : UInt64) (capacity_ne_zero : capacity ≠ 0) (hashFunction : κ → UInt64)
    (compareKeyFunction : κ → κ → Int) : Machine (State κ ν) (Action κ ν) (Event κ ν) where
  init :=
    { table := .new capacity capacity_ne_zero hashFunction compareKeyFunction
      pc := fun _ => none
      nodes := 0 }
  next := next

end Miez.GenericHashTable
