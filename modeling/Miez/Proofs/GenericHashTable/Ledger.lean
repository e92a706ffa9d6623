import Miez.GenericHashTable.Lifetime
import Miez.Lib.Ledger
import Miez.Proofs.GenericHashTable.Calls

/-!
# `Miez.Proofs.GenericHashTable.Ledger`: who frees the copies of a hash table

A copy of a key or of a value is in a pair of the table, or it has been freed. An `insert` whose
value copy fails frees the key copy itself, a `delete` frees the pair that it removes, and `free`
walks over all buckets. `contents` is what the pairs of all buckets have, and each call keeps the
balance of it (`run_balance`, `free_balance`). With the conservation rule this is so along every
run (`hash_table_ownership_ledger`).
-/

set_option autoImplicit false

namespace Miez.GenericHashTable

open Miez.Lib

variable {κ ν β : Type}

/-! ### The contents of a table -/

/-- What the pairs of all buckets have. -/
def contents (f : κ × ν → β) (t : GenericHashTable κ ν) : Multiset β :=
  ∑ i ∈ Finset.range t.capacity.toNat, ((t.buckets (UInt64.ofNat i)).map f : Multiset β)

section
variable {t t' : GenericHashTable κ ν}

/-- The bucket of a key is one of the buckets. -/
theorem bucketIndex_lt (t : GenericHashTable κ ν) (key : κ) : t.bucketIndex key < t.capacity := by
  have hpos : 0 < t.capacity.toNat := by
    have hne : t.capacity.toNat ≠ 0 := fun h => t.capacity_ne_zero (UInt64.toNat_inj.mp h)
    omega
  rw [UInt64.lt_iff_toNat_lt, bucketIndex, UInt64.toNat_mod]
  exact Nat.mod_lt _ hpos

/-- The contents when one bucket is exchanged. -/
theorem contents_update (f : κ × ν → β) {i : UInt64} (hi : i < t.capacity)
    {bucket : List (κ × ν)} (hcapacity : t'.capacity = t.capacity)
    (hbuckets : t'.buckets = Function.update t.buckets i bucket) :
    t'.contents f + ↑((t.buckets i).map f) = t.contents f + ↑(bucket.map f) := by
  have hmem : i.toNat ∈ Finset.range t.capacity.toNat :=
    Finset.mem_range.mpr (UInt64.lt_iff_toNat_lt.mp hi)
  -- the other buckets are the same
  have hrest : ∀ n ∈ (Finset.range t.capacity.toNat).erase i.toNat,
      ((t'.buckets (UInt64.ofNat n)).map f : Multiset β) = ↑((t.buckets (UInt64.ofNat n)).map f) := by
    intro n hn
    rw [Finset.mem_erase, Finset.mem_range] at hn
    have hlt := t.capacity.toNat_lt
    have hne : UInt64.ofNat n ≠ i := by
      intro heq
      apply hn.1
      rw [← heq, UInt64.toNat_ofNat_of_lt' (by rw [UInt64.size]; omega)]
    rw [hbuckets, Function.update_of_ne hne]
  rw [contents, contents, hcapacity, ← Finset.add_sum_erase _ _ hmem,
    ← Finset.add_sum_erase _ _ hmem, Finset.sum_congr rfl hrest, UInt64.ofNat_toNat, hbuckets,
    Function.update_self]
  abel

/-- The contents after `insert` has put a pair into a bucket. -/
theorem contents_push (f : κ × ν → β) {i : UInt64} (hi : i < t.capacity) (pair : κ × ν) :
    (t.push i pair).contents f = t.contents f + {f pair} := by
  have hupdate := contents_update f hi (rfl : (t.push i pair).capacity = t.capacity) rfl
  rw [List.map_cons, ← Multiset.cons_coe, ← Multiset.singleton_add, ← add_assoc] at hupdate
  exact add_right_cancel hupdate

/-- The first member that satisfies `p`, and the others. -/
theorem perm_eraseP {p : β → Bool} {l : List β} {b : β} (h : l.find? p = some b) :
    l.Perm (b :: l.eraseP p) := by
  obtain ⟨hb, as, bs, rfl, has⟩ := List.find?_eq_some_iff_append.mp h
  rw [List.eraseP_append_right _ (by simpa using has), List.eraseP_cons_of_pos hb]
  exact List.perm_middle

/-- The contents after `delete` has removed a pair. -/
theorem contents_erase (f : κ × ν → β) {key : κ} {pair : κ × ν}
    (hpair : (t.buckets (t.bucketIndex key)).find? (t.matchesKey key) = some pair) :
    {f pair} + (t.erase key).contents f = t.contents f := by
  have hupdate := contents_update f (t.bucketIndex_lt key)
    (rfl : (t.erase key).capacity = t.capacity) rfl
  have hperm : ((t.buckets (t.bucketIndex key)).map f : Multiset β)
      = {f pair} + ↑(((t.buckets (t.bucketIndex key)).eraseP (t.matchesKey key)).map f) := by
    exact Multiset.coe_eq_coe.mpr ((perm_eraseP hpair).map f)
  rw [hperm, ← add_assoc] at hupdate
  rw [add_comm]
  exact add_right_cancel hupdate

/-- What `delete` frees is the first pair with an equal key. -/
theorem deleteCallbacks_eq (t : GenericHashTable κ ν) (key : κ) (l : List (κ × ν)) :
    t.deleteCallbacks key l = match l.find? (t.matchesKey key) with
      | some pair => { freedKeys := [pair.1], freedValues := [pair.2] }
      | none => {} := by
  induction l with
  | nil => rfl
  | cons pair rest ih =>
      rw [deleteCallbacks]
      by_cases hpair : t.matchesKey key pair = true
      · rw [if_pos hpair, List.find?_cons_of_pos hpair]
      · rw [if_neg hpair, List.find?_cons_of_neg hpair, ih]

/-! ### The calls -/

/-- No mutex of a bucket is locked. -/
def Unlocked (t : GenericHashTable κ ν) : Prop := ∀ i, t.locked i = false

/-- The balance of a call that leads from `t` to `t'`, for the keys and for the values. -/
structure Balance (t : GenericHashTable κ ν) (c : Callbacks κ ν) (t' : GenericHashTable κ ν) :
    Prop where
  unlocked : Unlocked t'
  keys : t.contents Prod.fst + ↑c.copiedKeys = ↑c.freedKeys + t'.contents Prod.fst
  values : t.contents Prod.snd + ↑c.copiedValues = ↑c.freedValues + t'.contents Prod.snd

/-- A call without a callback that leaves the table as it was. -/
theorem balance_same (h : Unlocked t) : Balance t {} t where
  unlocked := h
  keys := by rw [add_comm]
  values := by rw [add_comm]

/-- The places where a copy is freed: in the `insert` that made it, when this `insert` fails, in the
`delete` that removes its pair, and in `free`. -/
def FreesInPlace : Operation κ ν × Int × Callbacks κ ν → Prop
  | (.call (.insert _ _ _), code, c) =>
      if code = 0 then c.freedKeys = [] ∧ c.freedValues = []
      else c.freedKeys = c.copiedKeys ∧ c.freedValues = c.copiedValues
  | (.call (.delete _ _), code, c) =>
      if code = 0 then ∃ pair : κ × ν, c = { freedKeys := [pair.1], freedValues := [pair.2] }
      else c = {}
  | (.call _, _, c) => c = {}
  | (.free _, _, c) => c.copiedKeys = [] ∧ c.copiedValues = []

/-- An `insert` whose node can be allocated is balanced. -/
theorem insertCall_balance (h : Unlocked t) (key : κ) (value : ν) {env : InsertEnv κ ν}
    (hmalloc : env.malloc = true) (hnode : env.mallocNode = true) :
    ∃ r t', t.insertCall key env = some (r, t') ∧ Balance t (insertCallbacks env) t' ∧
      FreesInPlace (.call (.insert (some key) value env), r.code, insertCallbacks env) := by
  have hmalloc' : ¬ env.malloc = false := by
    rw [hmalloc]
    exact Bool.true_eq_false.mp
  have hnode' : ¬ env.mallocNode = false := by
    rw [hnode]
    exact Bool.true_eq_false.mp
  rw [insertCall, insertCallbacks, if_neg hmalloc', if_neg hmalloc']
  by_cases hkey : env.copyKey.1 ≠ 0
  · rw [if_pos hkey, if_pos hkey]
    refine ⟨_, t, rfl, balance_same h, ?_⟩
    rw [FreesInPlace, if_neg hkey]
    exact ⟨rfl, rfl⟩
  · rw [if_neg hkey, if_neg hkey]
    by_cases hvalue : env.copyValue.1 ≠ 0
    · -- the key copy is freed at once
      rw [if_pos hvalue, if_pos hvalue]
      refine ⟨_, t, rfl, ⟨h, add_comm _ _, add_comm _ _⟩, ?_⟩
      rw [FreesInPlace, if_neg hvalue]
      exact ⟨rfl, rfl⟩
    · rw [if_neg hvalue, if_neg hvalue, if_neg hnode', hnode, insertSection_eq (h _), if_pos rfl]
      have hi := t.bucketIndex_lt key
      refine ⟨_, _, rfl, ⟨h, ?_, ?_⟩, rfl, rfl⟩
      · rw [contents_push _ hi, Multiset.coe_nil, zero_add]
        rfl
      · rw [contents_push _ hi, Multiset.coe_nil, zero_add]
        rfl

/-- A `delete` is balanced. -/
theorem deleteSection_balance (h : Unlocked t) (key : κ) :
    ∃ r t', t.deleteSection key true = some (r, t') ∧
      Balance t (t.deleteCallbacks key (t.buckets (t.bucketIndex key))) t' ∧
      FreesInPlace (.call (.delete (some key) true), r.code,
        t.deleteCallbacks key (t.buckets (t.bucketIndex key))) := by
  have hany : (t.buckets (t.bucketIndex key)).any (t.matchesKey key) = true ↔
      ((t.buckets (t.bucketIndex key)).find? (t.matchesKey key)).isSome = true :=
    List.any_eq_true.trans List.find?_isSome.symm
  rw [deleteSection_eq (h _), if_pos rfl, deleteCallbacks_eq]
  cases hfind : (t.buckets (t.bucketIndex key)).find? (t.matchesKey key) with
  | none =>
      rw [hfind] at hany
      rw [if_neg (fun h => Bool.false_ne_true (hany.mp h))]
      exact ⟨_, t, rfl, balance_same h, rfl⟩
  | some pair =>
      rw [hfind] at hany
      rw [if_pos (hany.mpr rfl)]
      refine ⟨_, _, rfl, ⟨h, ?_, ?_⟩, pair, rfl⟩
      · rw [Multiset.coe_nil, add_zero]
        exact (contents_erase Prod.fst hfind).symm
      · rw [Multiset.coe_nil, add_zero]
        exact (contents_erase Prod.snd hfind).symm

/-- Every call whose allocations succeed returns and is balanced. -/
theorem run_balance (h : Unlocked t) {call : Call κ ν}
    (halloc : AllocationsSucceed (some t) (.call call)) :
    ∃ r t', t.run call = some (r, t') ∧ Balance t (t.callbacks call) t' ∧
      FreesInPlace (.call call, r.code, t.callbacks call) := by
  cases call with
  | insert key value env =>
      cases key with
      | none => exact ⟨_, t, rfl, balance_same h, rfl, rfl⟩
      | some key => exact insertCall_balance h key value halloc.1 halloc.2
  | get key outValue iterator =>
      obtain rfl : iterator = true := halloc
      cases key with
      | none => exact ⟨_, t, rfl, balance_same h, rfl⟩
      | some key =>
          cases outValue with
          | false => exact ⟨_, t, rfl, balance_same h, rfl⟩
          | true =>
              rw [run, getSection_eq (h _), if_pos rfl]
              exact ⟨_, t, rfl, balance_same h, rfl⟩
  | delete key iterator =>
      obtain rfl : iterator = true := halloc
      cases key with
      | none => exact ⟨_, t, rfl, balance_same h, rfl⟩
      | some key => exact deleteSection_balance h key
  | contains key iterator =>
      obtain rfl : iterator = true := halloc
      cases key with
      | none => exact ⟨_, t, rfl, balance_same h, rfl⟩
      | some key =>
          rw [run, containsSection_eq (h _), if_pos rfl]
          exact ⟨_, t, rfl, balance_same h, rfl⟩

/-! ### `generic_hash_table_free` -/

/-- A bucket is freed from its head to its end. -/
theorem freeBucket_eq (l : List (κ × ν)) :
    freeBucket l = { freedKeys := l.map Prod.fst, freedValues := l.map Prod.snd } := by
  induction l with
  | nil => rfl
  | cons pair rest ih =>
      rw [freeBucket, ih]
      rfl

/-- The loop of `free` from the bucket `i` on frees the pairs of the buckets from `i` on. -/
theorem freeLoop_eq (h : Unlocked t) {rounds : Nat} {i : UInt64}
    (hi : i.toNat ≤ t.capacity.toNat) (hrounds : t.capacity.toNat - i.toNat < rounds) :
    ∃ c, t.freeLoop [] rounds i 0 = some (0, c) ∧
      c.copiedKeys = [] ∧ c.copiedValues = [] ∧
      (c.freedKeys : Multiset κ) = ∑ n ∈ Finset.Ico i.toNat t.capacity.toNat,
        ((t.buckets (UInt64.ofNat n)).map Prod.fst : Multiset κ) ∧
      (c.freedValues : Multiset ν) = ∑ n ∈ Finset.Ico i.toNat t.capacity.toNat,
        ((t.buckets (UInt64.ofNat n)).map Prod.snd : Multiset ν) := by
  induction rounds generalizing i with
  | zero => exact absurd hrounds (Nat.not_lt_zero _)
  | succ rounds ih =>
      rw [freeLoop]
      by_cases hlt : i < t.capacity
      · have hlt' := UInt64.lt_iff_toNat_lt.mp hlt
        have hcap := t.capacity.toNat_lt
        have hsucc : (i + 1).toNat = i.toNat + 1 := by
          rw [UInt64.toNat_add]
          exact Nat.mod_eq_of_lt (by simp only [UInt64.toNat_one]; omega)
        obtain ⟨c, hloop, hck, hcv, hkeys, hvalues⟩ := ih (by omega : (i + 1).toNat ≤ _) (by omega)
        have hlock := lockBucket_of_free (h i)
        rw [if_pos hlt, hlock, Option.bind_some, unlockBucket_lockBucket hlock]
        simp only [List.not_mem_nil, false_and, if_false, hloop, freeBucket_eq]
        refine ⟨_, rfl, rfl, rfl, ?_, ?_⟩
        · rw [Finset.sum_eq_sum_Ico_succ_bot hlt', ← hsucc, ← hkeys, UInt64.ofNat_toNat]
          rfl
        · rw [Finset.sum_eq_sum_Ico_succ_bot hlt', ← hsucc, ← hvalues, UInt64.ofNat_toNat]
          rfl
      · have hge : t.capacity.toNat ≤ i.toNat := by
          rw [UInt64.lt_iff_toNat_lt] at hlt
          omega
        rw [if_neg hlt]
        refine ⟨{}, rfl, rfl, rfl, ?_, ?_⟩
        · rw [Finset.Ico_eq_empty_of_le hge]
          rfl
        · rw [Finset.Ico_eq_empty_of_le hge]
          rfl

/-- `free` frees all that is in the table. -/
theorem free_spec (h : Unlocked t) :
    ∃ c, t.free [] = some (0, c) ∧ c.copiedKeys = [] ∧ c.copiedValues = [] ∧
      (c.freedKeys : Multiset κ) = t.contents Prod.fst ∧
      (c.freedValues : Multiset ν) = t.contents Prod.snd := by
  rw [contents, contents, Finset.range_eq_Ico]
  exact freeLoop_eq h (i := 0) (Nat.zero_le _) (Nat.lt_succ_self _)

end

/-! ### The runs -/

section
variable {capacity : UInt64} {hne : capacity ≠ 0} {hash : κ → UInt64} {compare : κ → κ → Int}

/-- The entry of a call for one of the four lists of its callbacks. -/
def entry (f : Callbacks κ ν → List β) (e : Operation κ ν × Int × Callbacks κ ν) : Multiset β :=
  ↑(f e.2.2)

/-- What a table holds. There is nothing after `free`. -/
def Holds (f : κ × ν → β) (s : Option (GenericHashTable κ ν)) (held : Multiset β) : Prop :=
  match s with
  | none => held = 0
  | some t => Unlocked t ∧ held = t.contents f

/-- A new table has nothing. -/
theorem contents_new (f : κ × ν → β) :
    (new capacity hne hash compare : GenericHashTable κ ν).contents f = 0 :=
  Finset.sum_eq_zero fun _ _ => rfl

/-- A new table holds nothing. -/
theorem holds_init (f : κ × ν → β) :
    Holds f (lifetime capacity hne hash compare : Machine (Option (GenericHashTable κ ν)) _ _).init
      0 :=
  ⟨fun _ => rfl, (contents_new f).symm⟩

/-- A step whose allocations succeed: a call that is balanced, or `free`, which frees what is
there. -/
theorem lifetime_cases {s s' : Option (GenericHashTable κ ν)} {operation : Operation κ ν}
    {e : Option (Operation κ ν × Int × Callbacks κ ν)} {t : GenericHashTable κ ν} (hs : s = some t)
    (ht : Unlocked t) (halloc : AllocationsSucceed s operation)
    (hnext : (lifetime capacity hne hash compare).next s operation = some (s', e)) :
    ∃ code c, e = some (operation, code, c) ∧ FreesInPlace (operation, code, c) ∧
      ((∃ t', s' = some t' ∧ Balance t c t') ∨
        s' = none ∧ c.copiedKeys = [] ∧ c.copiedValues = [] ∧
          (c.freedKeys : Multiset κ) = t.contents Prod.fst ∧
          (c.freedValues : Multiset ν) = t.contents Prod.snd) := by
  subst hs
  cases operation with
  | call call =>
      obtain ⟨r, t', hrun, hbalance, hplace⟩ := run_balance ht halloc
      have hstep : (lifetime capacity hne hash compare).next (some t) (.call call)
          = some (some t', some (.call call, r.code, t.callbacks call)) := by
        show (t.run call).map _ = _
        rw [hrun]
        rfl
      rw [hstep] at hnext
      cases hnext
      exact ⟨_, _, rfl, hplace, Or.inl ⟨t', rfl, hbalance⟩⟩
  | free noIterator =>
      obtain rfl : noIterator = [] := halloc
      obtain ⟨c, hfree, hspec⟩ := free_spec ht
      have hstep : (lifetime capacity hne hash compare).next (some t) (.free [])
          = some (none, some (.free [], 0, c)) := by
        show (t.free []).map _ = _
        rw [hfree]
        rfl
      rw [hstep] at hnext
      cases hnext
      exact ⟨_, _, rfl, ⟨hspec.1, hspec.2.1⟩, Or.inr ⟨rfl, hspec⟩⟩

/-- Every step is balanced, for the keys and for the values. -/
theorem lifetime_balance {s s' : Option (GenericHashTable κ ν)} {operation : Operation κ ν}
    {e : Option (Operation κ ν × Int × Callbacks κ ν)} (halloc : AllocationsSucceed s operation)
    (hnext : (lifetime capacity hne hash compare).next s operation = some (s', e)) :
    (∀ held, Holds Prod.fst s held → ∃ held', Holds Prod.fst s' held' ∧
      held + entryOf (entry Callbacks.copiedKeys) e
        = entryOf (entry Callbacks.freedKeys) e + held') ∧
    ∀ held, Holds Prod.snd s held → ∃ held', Holds Prod.snd s' held' ∧
      held + entryOf (entry Callbacks.copiedValues) e
        = entryOf (entry Callbacks.freedValues) e + held' := by
  cases s with
  | none => cases hnext
  | some t =>
      constructor
      · rintro held ⟨ht, rfl⟩
        obtain ⟨code, c, rfl, -, ⟨t', rfl, hbalance⟩ | ⟨rfl, hcopied, -, hfreed, -⟩⟩ :=
          lifetime_cases rfl ht halloc hnext
        · exact ⟨_, ⟨hbalance.unlocked, rfl⟩, hbalance.keys⟩
        · refine ⟨0, rfl, ?_⟩
          show t.contents Prod.fst + ↑c.copiedKeys = ↑c.freedKeys + 0
          rw [hcopied, hfreed]
          rfl
      · rintro held ⟨ht, rfl⟩
        obtain ⟨code, c, rfl, -, ⟨t', rfl, hbalance⟩ | ⟨rfl, -, hcopied, -, hfreed⟩⟩ :=
          lifetime_cases rfl ht halloc hnext
        · exact ⟨_, ⟨hbalance.unlocked, rfl⟩, hbalance.values⟩
        · refine ⟨0, rfl, ?_⟩
          show t.contents Prod.snd + ↑c.copiedValues = ↑c.freedValues + 0
          rw [hcopied, hfreed]
          rfl

/-- Every call of a run frees copies only in its place. -/
theorem freesInPlace_of_run {tr : List (Operation κ ν × Int × Callbacks κ ν)}
    {s : Option (GenericHashTable κ ν)}
    (h : (lifetime capacity hne hash compare).RunIf AllocationsSucceed tr s) :
    (∀ e ∈ tr, FreesInPlace e) ∧ ∀ t, s = some t → Unlocked t := by
  refine h.induction (I := fun tr s => (∀ e ∈ tr, FreesInPlace e) ∧ ∀ t, s = some t → Unlocked t)
    ⟨fun e he => (by cases he), ?_⟩ ?_
  · intro t ht
    cases ht
    exact fun _ => rfl
  · rintro tr s operation s' e - ⟨hplaces, hunlocked⟩ halloc hnext
    cases s with
    | none => cases hnext
    | some t =>
        obtain ⟨code, c, rfl, hplace, hcases⟩ :=
          lifetime_cases rfl (hunlocked t rfl) halloc hnext
        constructor
        · intro e he
          rcases List.mem_append.mp he with he | he
          · exact hplaces e he
          · rw [Option.toList_some, List.mem_singleton] at he
            rw [he]
            exact hplace
        · intro t' ht'
          rcases hcases with ⟨t₁, rfl, hbalance⟩ | ⟨rfl, -⟩
          · cases ht'
            exact hbalance.unlocked
          · cases ht'

/-- Who frees the copies. Along every run whose allocations succeed, the key copies of the table
are those that were freed and those in its pairs, each as often as it was made, and the value
copies likewise. After `free` every copy has been freed once, and nothing else has been freed. A
copy is freed by the `insert` that fails, by a `delete` or by `free`. Every call returns, `free`
among them. -/
theorem hash_table_ownership_ledger {tr : List (Operation κ ν × Int × Callbacks κ ν)}
    {s : Option (GenericHashTable κ ν)}
    (h : (lifetime capacity hne hash compare).RunIf AllocationsSucceed tr s) :
    (s = none →
      ledger (entry Callbacks.copiedKeys) tr = ledger (entry Callbacks.freedKeys) tr ∧
      ledger (entry Callbacks.copiedValues) tr = ledger (entry Callbacks.freedValues) tr) ∧
    (∀ e ∈ tr, FreesInPlace e) ∧
    ∀ t, s = some t →
      (ledger (entry Callbacks.copiedKeys) tr
          = ledger (entry Callbacks.freedKeys) tr + t.contents Prod.fst ∧
        ledger (entry Callbacks.copiedValues) tr
          = ledger (entry Callbacks.freedValues) tr + t.contents Prod.snd) ∧
      ∀ operation, AllocationsSucceed s operation →
        ((lifetime capacity hne hash compare).next s operation).isSome = true := by
  obtain ⟨keys, hkeys, hkeySum⟩ := h.conserved (holds_init Prod.fst)
    (fun _ _ _ _ held halloc hnext => (lifetime_balance halloc hnext).1 held)
  obtain ⟨values, hvalues, hvalueSum⟩ := h.conserved (holds_init Prod.snd)
    (fun _ _ _ _ held halloc hnext => (lifetime_balance halloc hnext).2 held)
  refine ⟨?_, (freesInPlace_of_run h).1, ?_⟩
  · rintro rfl
    obtain rfl : keys = 0 := hkeys
    obtain rfl : values = 0 := hvalues
    rw [add_zero] at hkeySum hvalueSum
    exact ⟨hkeySum, hvalueSum⟩
  · rintro t rfl
    obtain ⟨ht, rfl⟩ := hkeys
    obtain ⟨-, rfl⟩ := hvalues
    refine ⟨⟨hkeySum, hvalueSum⟩, ?_⟩
    intro operation halloc
    cases operation with
    | call call =>
        obtain ⟨r, t', hrun, -⟩ := run_balance ht halloc
        show ((t.run call).map _).isSome = true
        rw [hrun]
        rfl
    | free noIterator =>
        obtain rfl : noIterator = [] := halloc
        obtain ⟨c, hfree, -⟩ := free_spec ht
        show ((t.free []).map _).isSome = true
        rw [hfree]
        rfl

end

/-- Two pairs with one key, an `insert` whose value copy fails, a `delete`, and the end. -/
def duplicateKeys : List (Operation Nat Nat) :=
  [.call (.insert (some 3) 4 ⟨true, (0, 103), (0, 104), true⟩),
   .call (.insert (some 3) 5 ⟨true, (0, 203), (0, 105), true⟩),
   .call (.insert (some 6) 7 ⟨true, (0, 106), (9, 0), true⟩),
   .call (.delete (some 3) true), .free []]

/-- A table with two buckets, where keys are equal that are equal modulo 100. -/
def smallTable : Machine (Option (GenericHashTable Nat Nat)) (Operation Nat Nat)
    (Operation Nat Nat × Int × Callbacks Nat Nat) :=
  lifetime 2 (by decide) UInt64.ofNat fun a b => if a % 100 = b % 100 then 0 else 1

/-- The key copies 103, 106 and 203 are freed: 106 by its `insert`, 203 by the `delete`, and 103 by
`free`. -/
theorem hash_table_ownership_ledger_duplicateKeys :
    ∃ tr, smallTable.RunIf AllocationsSucceed tr none ∧
      ledger (entry Callbacks.copiedKeys) tr = {103, 106, 203} ∧
      ledger (entry Callbacks.freedKeys) tr = {103, 106, 203} := by
  obtain ⟨tr, s, hrun, hp⟩ := Machine.runIf_of_exec (M := smallTable) (K := AllocationsSucceed)
    duplicateKeys
    (fun tr s => decide (s.isNone = true ∧
      ledger (entry Callbacks.copiedKeys) tr = {103, 106, 203})) (by decide +kernel)
  obtain ⟨hnone, hcopied⟩ := of_decide_eq_true hp
  obtain rfl := Option.isNone_iff_eq_none.mp hnone
  refine ⟨tr, hrun, hcopied, ?_⟩
  rw [← ((hash_table_ownership_ledger hrun).1 rfl).1, hcopied]

end Miez.GenericHashTable
