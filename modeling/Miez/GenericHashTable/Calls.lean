import Miez.GenericHashTable

/-!
# `Miez.GenericHashTable.Calls`: the calls of the hash table with their failures

`generic_hash_table_insert`, `get`, `delete` and `contains` of `src/generic_hash_table.c` from the
argument checks to the return, with every allocation and every copy callback free to fail. A call
is one thread alone: it takes the mutex of its bucket, and it has no result when the mutex is
locked, since `pthread_mutex_lock` does not return then.

`generic_linked_list_iterator_get` succeeds at a valid position, and so does
`generic_linked_list_iterator_remove` with an out parameter. So the loops have no other exits than
the ones here.
-/

set_option autoImplicit false

namespace Miez.GenericHashTable

/-- The environment of an `insert`: the two allocations and the two copy callbacks. A callback
gives its exit code and what it has written to its out parameter. -/
structure InsertEnv (κ ν : Type) where
  malloc : Bool
  copyKey : Int × κ
  copyValue : Int × ν
  mallocNode : Bool
deriving DecidableEq

/-- A call. A key is NULL when it is `none`, `outValue` tells whether the out parameter of `get`
is not NULL, and `iterator` whether the iterator can be allocated. -/
inductive Call (κ ν : Type) where
  | insert (key : Option κ) (value : ν) (env : InsertEnv κ ν)
  | get (key : Option κ) (outValue iterator : Bool)
  | delete (key : Option κ) (iterator : Bool)
  | contains (key : Option κ) (iterator : Bool)
deriving DecidableEq

/-- The return code of a call and what it has written to `*out_value`, where NULL is `none`. -/
structure Result (ν : Type) where
  code : Int
  outValue : Option (Option ν)
deriving DecidableEq

variable {κ ν : Type}

/-- `pthread_mutex_lock(self->_mutexes + i)`. -/
def lockBucket (t : GenericHashTable κ ν) (i : UInt64) : Option (GenericHashTable κ ν) :=
  if t.locked i then none else some { t with locked := Function.update t.locked i true }

/-- `pthread_mutex_unlock(self->_mutexes + i)`. -/
def unlockBucket (t : GenericHashTable κ ν) (i : UInt64) : GenericHashTable κ ν :=
  { t with locked := Function.update t.locked i false }

/-- The test of the loops: `_compare_key_function(key, pair->_key) == 0`. -/
def matchesKey (t : GenericHashTable κ ν) (key : κ) (pair : κ × ν) : Bool :=
  t.compareKeyFunction key pair.1 == 0

/-- The loop of `generic_hash_table_get` over a bucket: the return code and `*out_value`. -/
def getLoop (t : GenericHashTable κ ν) (key : κ) : List (κ × ν) → Int × Option ν
  | [] => (1, none)
  | pair :: rest => if t.matchesKey key pair then (0, some pair.2) else t.getLoop key rest

/-- The loop of `generic_hash_table_delete`: the return code and the bucket after it. -/
def deleteLoop (t : GenericHashTable κ ν) (key : κ) : List (κ × ν) → Int × List (κ × ν)
  | [] => (1, [])
  | pair :: rest =>
      if t.matchesKey key pair then (0, rest)
      else ((t.deleteLoop key rest).1, pair :: (t.deleteLoop key rest).2)

/-- The loop of `generic_hash_table_contains`: the return code. -/
def containsLoop (t : GenericHashTable κ ν) (key : κ) : List (κ × ν) → Int
  | [] => 1
  | pair :: rest => if t.matchesKey key pair then 0 else t.containsLoop key rest

/-- `generic_hash_table_insert` from `pthread_mutex_lock` on, with the copied pair. -/
def insertSection (t : GenericHashTable κ ν) (i : UInt64) (pair : κ × ν) (mallocNode : Bool) :
    Option (Result ν × GenericHashTable κ ν) :=
  (t.lockBucket i).map fun t =>
    -- The early return keeps the mutex.
    if mallocNode = false then (⟨-1, none⟩, t)
    else
      (⟨0, none⟩, { t with
        buckets := Function.update t.buckets i (pair :: t.buckets i)
        size := t.size + 1 }.unlockBucket i)

/-- `generic_hash_table_insert` for a key that is not NULL. -/
def insertCall (t : GenericHashTable κ ν) (key : κ) (env : InsertEnv κ ν) :
    Option (Result ν × GenericHashTable κ ν) :=
  if env.malloc = false then some (⟨-1, none⟩, t)
  else if env.copyKey.1 ≠ 0 then some (⟨env.copyKey.1, none⟩, t)
  else if env.copyValue.1 ≠ 0 then some (⟨env.copyValue.1, none⟩, t)
  else t.insertSection (t.bucketIndex key) (env.copyKey.2, env.copyValue.2) env.mallocNode

/-- `generic_hash_table_get` from `pthread_mutex_lock` on. -/
def getSection (t : GenericHashTable κ ν) (key : κ) (iterator : Bool) :
    Option (Result ν × GenericHashTable κ ν) :=
  let i := t.bucketIndex key
  (t.lockBucket i).map fun t =>
    if iterator = false then (⟨-1, none⟩, t.unlockBucket i)
    else
      let r := t.getLoop key (t.buckets i)
      (⟨r.1, some r.2⟩, t.unlockBucket i)

/-- `generic_hash_table_delete` from `pthread_mutex_lock` on. -/
def deleteSection (t : GenericHashTable κ ν) (key : κ) (iterator : Bool) :
    Option (Result ν × GenericHashTable κ ν) :=
  let i := t.bucketIndex key
  (t.lockBucket i).map fun t =>
    if iterator = false then (⟨-1, none⟩, t.unlockBucket i)
    else
      let r := t.deleteLoop key (t.buckets i)
      if r.1 = 0 then
        (⟨0, none⟩, { t with
          buckets := Function.update t.buckets i r.2
          size := t.size - 1 }.unlockBucket i)
      else (⟨r.1, none⟩, t.unlockBucket i)

/-- `generic_hash_table_contains` from `pthread_mutex_lock` on. -/
def containsSection (t : GenericHashTable κ ν) (key : κ) (iterator : Bool) :
    Option (Result ν × GenericHashTable κ ν) :=
  let i := t.bucketIndex key
  (t.lockBucket i).map fun t =>
    if iterator = false then (⟨-1, none⟩, t.unlockBucket i)
    else (⟨t.containsLoop key (t.buckets i), none⟩, t.unlockBucket i)

/-- A call from its argument checks to its return. -/
def run (t : GenericHashTable κ ν) : Call κ ν → Option (Result ν × GenericHashTable κ ν)
  | .insert none _ _ => some (⟨1, none⟩, t)
  | .insert (some key) _ env => t.insertCall key env
  | .get none _ _ => some (⟨1, none⟩, t)
  | .get (some _) false _ => some (⟨1, none⟩, t)
  | .get (some key) true iterator => t.getSection key iterator
  | .delete none _ => some (⟨1, none⟩, t)
  | .delete (some key) iterator => t.deleteSection key iterator
  | .contains none _ => some (⟨1, none⟩, t)
  | .contains (some key) iterator => t.containsSection key iterator

end Miez.GenericHashTable
