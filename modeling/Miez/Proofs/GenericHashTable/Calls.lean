import Miez.GenericHashTable.Calls

/-!
# `Miez.Proofs.GenericHashTable.Calls`: the bucket mutexes are given back

What each call of the hash table returns and leaves behind. `bucket_mutexes_balanced` is about
every failure of an allocation and of a copy callback: a call that returns has given its mutex
back, and a failed one has changed nothing, unless it is an `insert` whose list node could not be
allocated. That `insert` returns with the mutex of its bucket locked.

`getSection_get` and `insertCall_insert` say that the `get`, `insert` and `insertNoNode` of the
broker's table are these calls.
-/

set_option autoImplicit false

namespace Miez.GenericHashTable

variable {κ ν : Type} {t t' : GenericHashTable κ ν}

/-! ### The loops -/

/-- The loop of `get` stops at the first pair with an equal key. -/
theorem getLoop_eq (t : GenericHashTable κ ν) (key : κ) (l : List (κ × ν)) :
    t.getLoop key l = match l.find? (t.matchesKey key) with
      | some pair => (0, some pair.2)
      | none => (1, none) := by
  induction l with
  | nil => rfl
  | cons pair rest ih =>
      unfold getLoop
      by_cases hkey : t.matchesKey key pair = true
      · rw [if_pos hkey, List.find?_cons_of_pos hkey]
      · rw [if_neg hkey, List.find?_cons_of_neg hkey, ih]

/-- The loop of `delete` removes the first pair with an equal key. -/
theorem deleteLoop_snd (t : GenericHashTable κ ν) (key : κ) (l : List (κ × ν)) :
    (t.deleteLoop key l).2 = l.eraseP (t.matchesKey key) := by
  induction l with
  | nil => rfl
  | cons pair rest ih =>
      unfold deleteLoop
      by_cases hkey : t.matchesKey key pair = true
      · rw [if_pos hkey, List.eraseP_cons_of_pos hkey]
      · rw [if_neg hkey, List.eraseP_cons_of_neg hkey]
        exact congrArg (pair :: ·) ih

/-- The loop of `delete` succeeds when there is a pair with an equal key. -/
theorem deleteLoop_fst (t : GenericHashTable κ ν) (key : κ) (l : List (κ × ν)) :
    (t.deleteLoop key l).1 = if l.any (t.matchesKey key) then 0 else 1 := by
  induction l with
  | nil => rfl
  | cons pair rest ih =>
      unfold deleteLoop
      by_cases hkey : t.matchesKey key pair = true
      · rw [if_pos hkey, List.any_cons, hkey, Bool.true_or, if_pos rfl]
      · rw [if_neg hkey, List.any_cons, Bool.not_eq_true _ |>.mp hkey, Bool.false_or]
        exact ih

/-- The loop of `contains` succeeds when there is a pair with an equal key. -/
theorem containsLoop_eq (t : GenericHashTable κ ν) (key : κ) (l : List (κ × ν)) :
    t.containsLoop key l = if l.any (t.matchesKey key) then 0 else 1 := by
  induction l with
  | nil => rfl
  | cons pair rest ih =>
      unfold containsLoop
      by_cases hkey : t.matchesKey key pair = true
      · rw [if_pos hkey, List.any_cons, hkey, Bool.true_or, if_pos rfl]
      · rw [if_neg hkey, List.any_cons, Bool.not_eq_true _ |>.mp hkey, Bool.false_or]
        exact ih

/-! ### The mutexes -/

/-- A mutex that has been locked was free. -/
theorem lockBucket_eq_some {i : UInt64} (h : t.lockBucket i = some t') :
    t.locked i = false ∧ t' = { t with locked := Function.update t.locked i true } := by
  unfold lockBucket at h
  by_cases hi : t.locked i = true
  · rw [if_pos hi] at h
    cases h
  · rw [if_neg hi] at h
    exact ⟨by simpa using hi, (Option.some.inj h).symm⟩

/-- A free mutex that is locked and given back is as before. -/
theorem update_locked {f : UInt64 → Bool} {i : UInt64} (h : f i = false) :
    Function.update (Function.update f i true) i false = f := by
  rw [Function.update_idem, ← h, Function.update_eq_self]

/-- A section that gives its mutex back: nothing else of the table changes than what the section
itself writes. -/
theorem unlockBucket_lockBucket {i : UInt64} (h : t.lockBucket i = some t') :
    t'.unlockBucket i = t := by
  obtain ⟨hi, rfl⟩ := lockBucket_eq_some h
  show { t with locked := Function.update (Function.update t.locked i true) i false } = t
  rw [update_locked hi]

/-- A free mutex can be locked. -/
theorem lockBucket_of_free {i : UInt64} (h : t.locked i = false) :
    t.lockBucket i = some { t with locked := Function.update t.locked i true } := by
  unfold lockBucket
  rw [h]
  rfl

/-! ### What the sections do -/

/-- `get` leaves the table as it was, and its result is that of the first pair with an equal
key. -/
theorem getSection_eq {key : κ} (hfree : t.locked (t.bucketIndex key) = false) (iterator : Bool) :
    t.getSection key iterator = some (if iterator then
      (⟨(t.getLoop key (t.buckets (t.bucketIndex key))).1,
        some (t.getLoop key (t.buckets (t.bucketIndex key))).2⟩, t) else (⟨-1, none⟩, t)) := by
  have hlock := lockBucket_of_free hfree
  have hback := unlockBucket_lockBucket hlock
  cases iterator with
  | false =>
      simp only [getSection, hlock, Option.map_some, hback, if_true, Bool.false_eq_true, if_false]
  | true =>
      have hloop : ∀ l, GenericHashTable.getLoop
          { t with locked := Function.update t.locked (t.bucketIndex key) true } key l
            = t.getLoop key l := by
        intro l
        rw [getLoop_eq, getLoop_eq]
        rfl
      simp only [getSection, hlock, Option.map_some, hloop, hback, Bool.true_eq_false, if_false,
        if_true]

/-- `contains` leaves the table as it was. -/
theorem containsSection_eq {key : κ} (hfree : t.locked (t.bucketIndex key) = false)
    (iterator : Bool) :
    t.containsSection key iterator = some (if iterator then
      (⟨t.containsLoop key (t.buckets (t.bucketIndex key)), none⟩, t) else (⟨-1, none⟩, t)) := by
  have hlock := lockBucket_of_free hfree
  have hback := unlockBucket_lockBucket hlock
  cases iterator with
  | false =>
      simp only [containsSection, hlock, Option.map_some, hback, if_true, Bool.false_eq_true,
        if_false]
  | true =>
      have hloop : ∀ l, GenericHashTable.containsLoop
          { t with locked := Function.update t.locked (t.bucketIndex key) true } key l
            = t.containsLoop key l := by
        intro l
        rw [containsLoop_eq, containsLoop_eq]
        rfl
      simp only [containsSection, hlock, Option.map_some, hloop, hback, Bool.true_eq_false,
        if_false, if_true]

/-- The table after `delete` has removed the first pair with an equal key. -/
def erase (t : GenericHashTable κ ν) (key : κ) : GenericHashTable κ ν :=
  { t with
    buckets := Function.update t.buckets (t.bucketIndex key)
      ((t.buckets (t.bucketIndex key)).eraseP (t.matchesKey key))
    size := t.size - 1 }

/-- `delete` removes the first pair with an equal key, or leaves the table as it was. -/
theorem deleteSection_eq {key : κ} (hfree : t.locked (t.bucketIndex key) = false)
    (iterator : Bool) :
    t.deleteSection key iterator = some (if iterator then
      if (t.buckets (t.bucketIndex key)).any (t.matchesKey key) then (⟨0, none⟩, t.erase key)
      else (⟨1, none⟩, t) else (⟨-1, none⟩, t)) := by
  have hlock := lockBucket_of_free hfree
  have hback := unlockBucket_lockBucket hlock
  cases iterator with
  | false =>
      simp only [deleteSection, hlock, Option.map_some, hback, if_true, Bool.false_eq_true,
        if_false]
  | true =>
      simp only [deleteSection, hlock, Option.map_some, Bool.true_eq_false, if_false, if_true,
        deleteLoop_fst, deleteLoop_snd]
      by_cases hany : (t.buckets (t.bucketIndex key)).any (t.matchesKey key) = true
      · have hany' : (t.buckets (t.bucketIndex key)).any (GenericHashTable.matchesKey
            { t with locked := Function.update t.locked (t.bucketIndex key) true } key) = true :=
          hany
        rw [if_pos hany, if_pos hany', if_pos rfl]
        refine congrArg (fun t' => some ((⟨0, none⟩ : Result ν), t')) ?_
        show GenericHashTable.mk _ _ _ _ _
          (Function.update (Function.update t.locked (t.bucketIndex key) true)
            (t.bucketIndex key) false) _ = t.erase key
        rw [update_locked hfree]
        rfl
      · have hany' : ¬ (t.buckets (t.bucketIndex key)).any (GenericHashTable.matchesKey
            { t with locked := Function.update t.locked (t.bucketIndex key) true } key) = true :=
          hany
        rw [if_neg hany, if_neg hany', if_neg (by omega)]
        exact congrArg (fun t' => some ((⟨1, none⟩ : Result ν), t')) hback

/-- The table after `insert` has put a pair at the head of a bucket. -/
def push (t : GenericHashTable κ ν) (i : UInt64) (pair : κ × ν) : GenericHashTable κ ν :=
  { t with
    buckets := Function.update t.buckets i (pair :: t.buckets i)
    size := t.size + 1 }

/-- `insert` puts the pair at the head of its bucket, or returns with the mutex locked when the
list node cannot be allocated. -/
theorem insertSection_eq {i : UInt64} (hfree : t.locked i = false) (pair : κ × ν)
    (mallocNode : Bool) :
    t.insertSection i pair mallocNode = some (if mallocNode then (⟨0, none⟩, t.push i pair)
      else (⟨-1, none⟩, { t with locked := Function.update t.locked i true })) := by
  unfold insertSection
  rw [lockBucket_of_free hfree]
  cases mallocNode with
  | false => rfl
  | true =>
      refine congrArg (fun t' => some ((⟨0, none⟩ : Result ν), t')) ?_
      show GenericHashTable.mk _ _ _ _ _
        (Function.update (Function.update t.locked i true) i false) _ = t.push i pair
      rw [update_locked hfree]
      rfl

/-! ### The table of the broker -/

/-- The `get` of the broker's table is `generic_hash_table_get`, and a failed one is its early
return. -/
theorem getSection_get {key : κ} (hfree : t.locked (t.bucketIndex key) = false) :
    t.getSection key true = some (match t.get key with
      | some value => (⟨0, some (some value)⟩, t)
      | none => (⟨1, some none⟩, t)) ∧
    t.getSection key false = some (⟨-1, none⟩, t) := by
  refine ⟨?_, getSection_eq hfree false⟩
  rw [getSection_eq hfree true, if_pos rfl, getLoop_eq]
  have hget : t.get key
      = ((t.buckets (t.bucketIndex key)).find? (t.matchesKey key)).map Prod.snd := rfl
  rw [hget]
  cases (t.buckets (t.bucketIndex key)).find? (t.matchesKey key) with
  | none => rfl
  | some pair => rfl

/-- The `insert` and the `insertNoNode` of the broker's table are `generic_hash_table_insert` with
a key and a value that the callbacks copy. -/
theorem insertCall_insert {key : κ} (hfree : t.locked (t.bucketIndex key) = false) (value : ν) :
    t.insertCall key ⟨true, (0, key), (0, value), true⟩
      = some (⟨0, none⟩, t.insert key value) ∧
    t.insertCall key ⟨true, (0, key), (0, value), false⟩
      = some (⟨-1, none⟩, t.insertNoNode key) := by
  exact ⟨insertSection_eq hfree (key, value) true, insertSection_eq hfree (key, value) false⟩

/-! ### Balance -/

/-- The call is an `insert` that gets as far as the allocation of its list node, which fails. -/
def Call.nodeFails : Call κ ν → Prop
  | .insert (some _) _ env =>
      env.malloc = true ∧ env.copyKey.1 = 0 ∧ env.copyValue.1 = 0 ∧ env.mallocNode = false
  | _ => False

/-- The call is a `delete`. -/
def Call.isDelete : Call κ ν → Prop
  | .delete _ _ => True
  | _ => False

/-- The call leaves the mutexes as they were, and a failed one has changed nothing. -/
def Balanced (t t' : GenericHashTable κ ν) (call : Call κ ν) (r : Result ν) : Prop :=
  t'.locked = t.locked ∧
    (r.code ≠ 0 → ¬ call.isDelete → t'.buckets = t.buckets ∧ t'.size = t.size)

/-- A call that leaves the table as it was. -/
theorem Balanced.same (call : Call κ ν) (r : Result ν) : Balanced t t call r :=
  ⟨rfl, fun _ _ => ⟨rfl, rfl⟩⟩

/-- An `insert` that does not fail at its node is balanced. -/
theorem balanced_insertCall {key : κ} {value : ν} {env : InsertEnv κ ν} {r : Result ν}
    (h : t.insertCall key env = some (r, t'))
    (hnode : ¬ (Call.insert (some key) value env).nodeFails) :
    Balanced t t' (.insert (some key) value env) r := by
  unfold insertCall at h
  split_ifs at h with hmalloc hkey hvalue
  · obtain ⟨rfl, rfl⟩ : (⟨-1, none⟩ : Result ν) = r ∧ t = t' := by simpa using h
    exact .same _ _
  · obtain ⟨rfl, rfl⟩ : (⟨env.copyKey.1, none⟩ : Result ν) = r ∧ t = t' := by simpa using h
    exact .same _ _
  · obtain ⟨rfl, rfl⟩ : (⟨env.copyValue.1, none⟩ : Result ν) = r ∧ t = t' := by simpa using h
    exact .same _ _
  · have hmallocNode : env.mallocNode = true := by
      by_contra hn
      exact hnode ⟨by simpa using hmalloc, by simpa using hkey, by simpa using hvalue,
        by simpa using hn⟩
    by_cases hfree : t.locked (t.bucketIndex key) = false
    · rw [insertSection_eq hfree, hmallocNode, if_pos rfl] at h
      obtain ⟨rfl, rfl⟩ : (⟨0, none⟩ : Result ν) = r ∧
          t.push (t.bucketIndex key) (env.copyKey.2, env.copyValue.2) = t' := by simpa using h
      exact ⟨rfl, fun hcode => absurd rfl hcode⟩
    · -- The mutex is locked, so the call does not return.
      rw [insertSection, lockBucket, if_pos (by simpa using hfree)] at h
      cases h

/-- An `insert` that fails at its node returns with the mutex of its bucket. -/
theorem locked_of_nodeFails {key : κ} {value : ν} {env : InsertEnv κ ν} {r : Result ν}
    (h : t.insertCall key env = some (r, t'))
    (hnode : (Call.insert (some key) value env).nodeFails) :
    t.locked (t.bucketIndex key) = false ∧ t'.locked (t.bucketIndex key) = true := by
  obtain ⟨hmalloc, hkey, hvalue, hmallocNode⟩ := hnode
  have hne : env.malloc ≠ false := by
    rw [hmalloc]
    exact Bool.noConfusion
  rw [insertCall, if_neg hne, if_neg (not_not.mpr hkey), if_neg (not_not.mpr hvalue)] at h
  by_cases hfree : t.locked (t.bucketIndex key) = false
  · rw [insertSection_eq hfree, hmallocNode] at h
    obtain ⟨-, rfl⟩ : (⟨-1, none⟩ : Result ν) = r ∧
        { t with locked := Function.update t.locked (t.bucketIndex key) true } = t' := by
      simpa using h
    exact ⟨hfree, Function.update_self _ _ _⟩
  · rw [insertSection, lockBucket, if_pos (by simpa using hfree)] at h
    cases h

/-- A section that returned found its mutex free. -/
theorem free_of_run {key : κ} {f : GenericHashTable κ ν → Result ν × GenericHashTable κ ν}
    {x : Result ν × GenericHashTable κ ν}
    (h : (t.lockBucket (t.bucketIndex key)).map f = some x) :
    t.locked (t.bucketIndex key) = false := by
  obtain ⟨t₁, hlock, -⟩ := Option.map_eq_some_iff.mp h
  exact (lockBucket_eq_some hlock).1

/-- The bucket mutexes are balanced. Whatever allocations and copy callbacks fail: a call that
returns has given its bucket mutex back, and a failed `insert`, `get` or `contains` has changed
nothing, if and only if it is not an `insert` whose list node could not be allocated. -/
theorem bucket_mutexes_balanced {call : Call κ ν} {r : Result ν} (h : t.run call = some (r, t')) :
    Balanced t t' call r ↔ ¬ call.nodeFails := by
  have hsame : ∀ {r' : Result ν} (call : Call κ ν), some (r', t) = some (r, t') →
      Balanced t t' call r := by
    intro r' call hr
    obtain ⟨-, rfl⟩ := Prod.mk.inj (Option.some.inj hr)
    exact .same _ _
  cases call with
  | insert key value env =>
      cases key with
      | none => exact iff_of_true (hsame _ h) not_false
      | some key =>
          constructor
          · intro hbal hnode
            obtain ⟨hfree, hlocked⟩ := locked_of_nodeFails h hnode
            rw [hbal.1, hfree] at hlocked
            cases hlocked
          · exact balanced_insertCall h
  | get key outValue iterator =>
      refine iff_of_true ?_ not_false
      cases key with
      | none => exact hsame _ h
      | some key =>
          cases outValue with
          | false => exact hsame _ h
          | true =>
              have h' : t.getSection key iterator = some (r, t') := h
              rw [getSection_eq (free_of_run h)] at h'
              cases iterator <;> exact hsame _ h'
  | delete key iterator =>
      refine iff_of_true ⟨?_, fun _ hdel => absurd trivial hdel⟩ not_false
      cases key with
      | none => exact (hsame (.delete none iterator) h).1
      | some key =>
          have h' : t.deleteSection key iterator = some (r, t') := h
          rw [deleteSection_eq (free_of_run h)] at h'
          split_ifs at h' with hit hany
          · obtain ⟨-, rfl⟩ := Prod.mk.inj (Option.some.inj h')
            rfl
          · exact (hsame (.delete (some key) iterator) h').1
          · exact (hsame (.delete (some key) iterator) h').1
  | contains key iterator =>
      refine iff_of_true ?_ not_false
      cases key with
      | none => exact hsame _ h
      | some key =>
          have h' : t.containsSection key iterator = some (r, t') := h
          rw [containsSection_eq (free_of_run h)] at h'
          cases iterator <;> exact hsame _ h'

/-- An empty table with one bucket. -/
def emptyTable : GenericHashTable UInt64 Nat :=
  .new 1 (by decide) id fun a b => if a = b then 0 else 1

/-- An `insert` whose key copy fails is balanced. -/
theorem bucket_mutexes_balanced_copyKey :
    ∃ r t', emptyTable.run (.insert (some 7) 0 ⟨true, (5, 7), (0, 0), true⟩) = some (r, t') ∧
      r.code = 5 ∧ Balanced emptyTable t' (.insert (some 7) 0 ⟨true, (5, 7), (0, 0), true⟩) r := by
  refine ⟨⟨5, none⟩, emptyTable, rfl, rfl, ?_⟩
  exact (bucket_mutexes_balanced (t := emptyTable) rfl).mpr fun h => by simp [Call.nodeFails] at h

/-- The `insert` of one key into an empty table whose list node cannot be allocated returns -1
and keeps the mutex of the bucket 0. -/
theorem insert_keeps_bucket_mutex :
    ∃ r t', emptyTable.run (.insert (some 7) 0 ⟨true, (0, 7), (0, 0), false⟩) = some (r, t') ∧
      r.code = -1 ∧ emptyTable.locked 0 = false ∧ t'.locked 0 = true ∧
      ¬ Balanced emptyTable t' (.insert (some 7) 0 ⟨true, (0, 7), (0, 0), false⟩) r := by
  refine ⟨⟨-1, none⟩, { emptyTable with locked := Function.update emptyTable.locked 0 true }, rfl,
    rfl, rfl, ?_, ?_⟩
  · exact Function.update_self 0 true emptyTable.locked
  intro hbal
  have hlocked : Function.update emptyTable.locked 0 true 0 = emptyTable.locked 0 :=
    congrFun hbal.1 0
  rw [Function.update_self] at hlocked
  cases hlocked

end Miez.GenericHashTable
