import Mathlib

/-!
# `Miez.GenericHashTable`: the hash table with one list per bucket

`src/generic_hash_table.c`. A key lives in the bucket `hash(key) % capacity`. `insert` puts a
pair at the head of its bucket and does not look for an older pair with the same key; `get`
walks the bucket from the head and returns the first value whose key compares equal. The
bucket mutexes are taken and given back inside one call. The exception is an `insert` whose
list node cannot be allocated: it returns with the bucket mutex locked, and `locked` records
this.

The two functions here are what the broker uses. The keys are copied by value, so the table
stores keys and values themselves.
-/

set_option autoImplicit false

namespace Miez

/-- `struct generic_hash_table_t` with keys `κ` and values `ν`. -/
structure GenericHashTable (κ ν : Type) where
  capacity : UInt64
  capacity_ne_zero : capacity ≠ 0
  hashFunction : κ → UInt64
  compareKeyFunction : κ → κ → Int
  buckets : UInt64 → List (κ × ν)
  locked : UInt64 → Bool
  size : UInt64

namespace GenericHashTable

variable {κ ν : Type}

/-- `generic_hash_table_new` for a capacity that is not 0. -/
def new (capacity : UInt64) (capacity_ne_zero : capacity ≠ 0) (hashFunction : κ → UInt64)
    (compareKeyFunction : κ → κ → Int) : GenericHashTable κ ν where
  capacity := capacity
  capacity_ne_zero := capacity_ne_zero
  hashFunction := hashFunction
  compareKeyFunction := compareKeyFunction
  buckets := fun _ => []
  locked := fun _ => false
  size := 0

/-- The index of the bucket of a key. -/
def bucketIndex (t : GenericHashTable κ ν) (key : κ) : UInt64 := t.hashFunction key % t.capacity

/-- `generic_hash_table_get`: the value of the first pair of the bucket with an equal key. -/
def get (t : GenericHashTable κ ν) (key : κ) : Option ν :=
  ((t.buckets (t.bucketIndex key)).find? fun pair => t.compareKeyFunction key pair.1 == 0).map
    Prod.snd

/-- `generic_hash_table_insert` when every allocation succeeds. -/
def insert (t : GenericHashTable κ ν) (key : κ) (value : ν) : GenericHashTable κ ν :=
  { t with
    buckets := Function.update t.buckets (t.bucketIndex key)
      ((key, value) :: t.buckets (t.bucketIndex key))
    size := t.size + 1 }

/-- `generic_hash_table_insert` when the list node cannot be allocated. The pair is freed, and
the function returns without `pthread_mutex_unlock`. -/
def insertNoNode (t : GenericHashTable κ ν) (key : κ) : GenericHashTable κ ν :=
  { t with locked := Function.update t.locked (t.bucketIndex key) true }

@[simp] theorem get_new (capacity : UInt64) (h : capacity ≠ 0) (hash : κ → UInt64)
    (compare : κ → κ → Int) (key : κ) :
    (new capacity h hash compare : GenericHashTable κ ν).get key = none := rfl

/-- What `get` returns after an `insert`, when `compareKeyFunction` gives 0 on equal keys only.
A key in the same bucket as the new one keeps its value. -/
theorem get_insert [DecidableEq κ] (t : GenericHashTable κ ν)
    (hcmp : ∀ a b, t.compareKeyFunction a b = 0 ↔ a = b) (key key' : κ) (value : ν) :
    (t.insert key value).get key' = if key' = key then some value else t.get key' := by
  have hget : (t.insert key value).get key'
      = ((Function.update t.buckets (t.bucketIndex key)
          ((key, value) :: t.buckets (t.bucketIndex key)) (t.bucketIndex key')).find?
            fun pair => t.compareKeyFunction key' pair.1 == 0).map Prod.snd := rfl
  rw [hget]
  by_cases hkey : key' = key
  · subst hkey
    have hself : t.compareKeyFunction key' key' = 0 := (hcmp key' key').mpr rfl
    rw [if_pos rfl, Function.update_self, List.find?_cons_of_pos (by simpa using hself)]
    rfl
  · rw [if_neg hkey]
    by_cases hbucket : t.bucketIndex key' = t.bucketIndex key
    · -- The two keys collide: the new pair is passed over.
      have hne : t.compareKeyFunction key' key ≠ 0 := fun h => hkey ((hcmp key' key).mp h)
      rw [hbucket, Function.update_self, List.find?_cons_of_neg (by simpa using hne), get, hbucket]
    · rw [Function.update_of_ne hbucket, get]

end GenericHashTable

end Miez
