import Miez.GenericHashTable.Calls
import Miez.Lib.Machine

/-!
# `Miez.GenericHashTable.Lifetime`: the copies of a hash table, up to its end

The callbacks that the calls of `src/generic_hash_table.c` call: the keys and the values that a
copy callback has copied, and those that were given to `_free_key_function` and to
`_free_value_function`. `free` is `generic_hash_table_free`, and `lifetime` is the machine of the
calls on a new table, up to `free`. As in `Miez.GenericHashTable.Calls`, a call has no result when
it waits for a mutex that nobody gives back.

The lists of the buckets have no free function, so `generic_linked_list_free` frees no pair.
-/

set_option autoImplicit false

namespace Miez.GenericHashTable

open Miez.Lib

variable {κ ν : Type}

/-- What the successful calls of the copy callbacks have produced, and what the free callbacks were
called on. -/
structure Callbacks (κ ν : Type) where
  copiedKeys : List κ := []
  copiedValues : List ν := []
  freedKeys : List κ := []
  freedValues : List ν := []
deriving DecidableEq

/-! ### `generic_hash_table_insert` and `generic_hash_table_delete` -/

/-- The callbacks of `generic_hash_table_insert` for a key that is not NULL. -/
def insertCallbacks (env : InsertEnv κ ν) : Callbacks κ ν :=
  if env.malloc = false then {}
  else if env.copyKey.1 ≠ 0 then {}
  else if env.copyValue.1 ≠ 0 then
    { copiedKeys := [env.copyKey.2], freedKeys := [env.copyKey.2] }
  else if env.mallocNode = false then
    { copiedKeys := [env.copyKey.2], copiedValues := [env.copyValue.2]
      freedKeys := [env.copyKey.2], freedValues := [env.copyValue.2] }
  else { copiedKeys := [env.copyKey.2], copiedValues := [env.copyValue.2] }

/-- The callbacks in the loop of `generic_hash_table_delete`: the pair that is removed. -/
def deleteCallbacks (t : GenericHashTable κ ν) (key : κ) : List (κ × ν) → Callbacks κ ν
  | [] => {}
  | pair :: rest =>
      if t.matchesKey key pair then { freedKeys := [pair.1], freedValues := [pair.2] }
      else t.deleteCallbacks key rest

/-- The callbacks of a call. The keys are hashed and compared besides. -/
def callbacks (t : GenericHashTable κ ν) : Call κ ν → Callbacks κ ν
  | .insert (some _) _ env => insertCallbacks env
  | .delete (some key) iterator =>
      if iterator = false then {} else t.deleteCallbacks key (t.buckets (t.bucketIndex key))
  | _ => {}

/-! ### `generic_hash_table_free` -/

/-- The loop of `generic_hash_table_free` over one bucket. -/
def freeBucket : List (κ × ν) → Callbacks κ ν
  | [] => {}
  | pair :: rest =>
      let after := freeBucket rest
      { freedKeys := pair.1 :: after.freedKeys, freedValues := pair.2 :: after.freedValues }

/-- The loop of `generic_hash_table_free`: the return code and the callbacks. The buckets in
`noIterator` are those whose iterator cannot be allocated. Each round increments `i`, so
`_capacity + 1` rounds are enough. -/
def freeLoop (t : GenericHashTable κ ν) (noIterator : List UInt64) :
    Nat → UInt64 → Int → Option (Int × Callbacks κ ν)
  | 0, _, _ => none
  | rounds + 1, i, firstError =>
      if i < t.capacity then
        (t.lockBucket i).bind fun t =>
          let bucket : Callbacks κ ν := if i ∈ noIterator then {} else freeBucket (t.buckets i)
          let firstError := if i ∈ noIterator ∧ firstError = 0 then -1 else firstError
          ((t.unlockBucket i).freeLoop noIterator rounds (i + 1) firstError).map fun r =>
            (r.1, { freedKeys := bucket.freedKeys ++ r.2.freedKeys
                    freedValues := bucket.freedValues ++ r.2.freedValues })
      else some (firstError, {})

/-- `generic_hash_table_free`. -/
def free (t : GenericHashTable κ ν) (noIterator : List UInt64) : Option (Int × Callbacks κ ν) :=
  t.freeLoop noIterator (t.capacity.toNat + 1) 0 0

/-! ### The machine -/

/-- A call on a table, or its end. -/
inductive Operation (κ ν : Type) where
  | call (call : Call κ ν)
  | free (noIterator : List UInt64)
deriving DecidableEq

/-- The calls on a new table, one after the other, up to `free`. An event tells the call, its
return code and its callbacks. -/
def lifetime (capacity : UInt64) (capacity_ne_zero : capacity ≠ 0) (hashFunction : κ → UInt64)
    (compareKeyFunction : κ → κ → Int) :
    Machine (Option (GenericHashTable κ ν)) (Operation κ ν)
      (Operation κ ν × Int × Callbacks κ ν) where
  init := some (.new capacity capacity_ne_zero hashFunction compareKeyFunction)
  next := fun self operation =>
    self.bind fun t => match operation with
      | .call call =>
          (t.run call).map fun r => (some r.2, some (operation, r.1.code, t.callbacks call))
      | .free noIterator => (t.free noIterator).map fun r => (none, some (operation, r.1, r.2))

/-- No allocation of the call fails. The copy callbacks may fail. -/
def AllocationsSucceed (_ : Option (GenericHashTable κ ν)) : Operation κ ν → Prop
  | .call (.insert _ _ env) => env.malloc = true ∧ env.mallocNode = true
  | .call (.get _ _ iterator) | .call (.delete _ iterator) | .call (.contains _ iterator) =>
      iterator = true
  | .free noIterator => noIterator = []

instance (s : Option (GenericHashTable κ ν)) (operation : Operation κ ν) :
    Decidable (AllocationsSucceed s operation) :=
  match operation with
  | .call (.insert _ _ env) =>
      inferInstanceAs (Decidable (env.malloc = true ∧ env.mallocNode = true))
  | .call (.get _ _ iterator) | .call (.delete _ iterator) | .call (.contains _ iterator) =>
      inferInstanceAs (Decidable (iterator = true))
  | .free noIterator => inferInstanceAs (Decidable (noIterator = []))

end Miez.GenericHashTable
