import Miez.GenericHashTable.Threads
import Miez.Lib.Stacks
import Miez.Proofs.GenericHashTable.Calls

/-!
# `Miez.Proofs.GenericHashTable.Stacks`: the hash table is a stack for each key

The keys that compare equal are one key, so the abstract table has one stack for each class of
equal keys. `stacksOf` runs the calls on these stacks, in the order of their bucket sections: an
`insert` that succeeds pushes, and a `delete` that succeeds pops.

`table_refines_stacks`: in every run without a failed allocation, with copy callbacks that may
fail, the pairs of a bucket with an equal key are the stack of the key, every call has returned
what the stacks say, and `_size` is the number of items in all stacks.
-/

set_option autoImplicit false

namespace Miez.GenericHashTable

open Miez.Lib

variable {κ ν : Type} {capacity : UInt64} {hcap : capacity ≠ 0} {hash : κ → UInt64}
  {compare : κ → κ → Int}

/-! ### The abstract table -/

/-- `compare` is an equivalence, where 0 means equal, and `hash` respects it. -/
structure KeyLaws (hash : κ → UInt64) (compare : κ → κ → Int) : Prop where
  equivalence : Equivalence fun a b => compare a b = 0
  hash : ∀ a b, compare a b = 0 → hash a = hash b

/-- The classes of equal keys. -/
def keySetoid (laws : KeyLaws hash compare) : Setoid κ := ⟨_, laws.equivalence⟩

/-- The class of a key. -/
def keyClass (laws : KeyLaws hash compare) (key : κ) : Quotient (keySetoid laws) :=
  Quotient.mk (keySetoid laws) key

/-- The stacks after one more event. -/
noncomputable def applyEvent (laws : KeyLaws hash compare)
    (st : Stacks (Quotient (keySetoid laws)) ν) : Event κ ν → Stacks (Quotient (keySetoid laws)) ν
  | .returned _ (.insert (some key) _ env) r =>
      if r.code = 0 then st.push (keyClass laws key) env.copyValue.2 else st
  | .returned _ (.delete (some key) _) r => if r.code = 0 then st.pop (keyClass laws key) else st
  | _ => st

/-- The stacks after a run. -/
noncomputable def stacksOf (laws : KeyLaws hash compare) (tr : List (Event κ ν)) :
    Stacks (Quotient (keySetoid laws)) ν :=
  tr.foldl (applyEvent laws) fun _ => []

/-- What a call returns and what a read of `_size` gives, for a table with the stacks `st`. -/
def Agrees (laws : KeyLaws hash compare) (st : Stacks (Quotient (keySetoid laws)) ν) :
    Event κ ν → Prop
  | .returned _ (.insert (some _) _ env) r =>
      r.code = 0 ↔ env.copyKey.1 = 0 ∧ env.copyValue.1 = 0
  | .returned _ (.get (some key) true _) r => match st (keyClass laws key) with
      | [] => r = ⟨1, some none⟩
      | value :: _ => r = ⟨0, some (some value)⟩
  | .returned _ (.delete (some key) _) r => r.code = 0 ↔ st (keyClass laws key) ≠ []
  | .returned _ (.contains (some key) _) r => r.code = 0 ↔ st (keyClass laws key) ≠ []
  | .returned _ _ r => r.code ≠ 0
  | .size _ size => size.toNat = st.depth
  | .empty _ code => code = 1 ↔ st.depth = 0

/-- No allocation of the call fails, and a key that has been copied is equal to the original. -/
def SoundCall (compare : κ → κ → Int) : Call κ ν → Prop
  | .insert none _ env => env.malloc = true ∧ env.mallocNode = true
  | .insert (some key) _ env => env.malloc = true ∧ env.mallocNode = true ∧
      (env.copyKey.1 = 0 → compare key env.copyKey.2 = 0)
  | .get _ _ iterator => iterator = true
  | .delete _ iterator => iterator = true
  | .contains _ iterator => iterator = true

/-- The calls of a run are sound. -/
def SoundStep (compare : κ → κ → Int) (_ : State κ ν) : Action κ ν → Prop
  | .call _ call => SoundCall compare call
  | _ => True

instance (compare : κ → κ → Int) (call : Call κ ν) : Decidable (SoundCall compare call) :=
  match call with
  | .insert none _ _ => inferInstanceAs (Decidable (_ ∧ _))
  | .insert (some _) _ _ => inferInstanceAs (Decidable (_ ∧ _ ∧ (_ → _)))
  | .get _ _ _ => inferInstanceAs (Decidable (_ = _))
  | .delete _ _ => inferInstanceAs (Decidable (_ = _))
  | .contains _ _ => inferInstanceAs (Decidable (_ = _))

instance (compare : κ → κ → Int) (s : State κ ν) (a : Action κ ν) :
    Decidable (SoundStep compare s a) :=
  match a with
  | .call _ call => inferInstanceAs (Decidable (SoundCall compare call))
  | .lockSection _ => inferInstanceAs (Decidable True)
  | .getSize _ => inferInstanceAs (Decidable True)
  | .isEmpty _ => inferInstanceAs (Decidable True)

/-- Two keys are in one class when they compare equal. -/
theorem keyClass_eq_iff (laws : KeyLaws hash compare) (a b : κ) :
    keyClass laws a = keyClass laws b ↔ compare a b = 0 :=
  Quotient.eq (r := keySetoid laws)

/-- The stacks after one more step. -/
theorem stacksOf_append (laws : KeyLaws hash compare) (tr : List (Event κ ν)) (e : Event κ ν) :
    stacksOf laws (tr ++ [e]) = applyEvent laws (stacksOf laws tr) e := by
  rw [stacksOf, List.foldl_append]
  rfl

/-! ### Lists -/

/-- The items with a property, after the first of them is removed. -/
theorem filter_eraseP_self {α : Type} (p : α → Bool) (l : List α) :
    (l.eraseP p).filter p = (l.filter p).tail := by
  induction l with
  | nil => rfl
  | cons a l ih =>
      by_cases ha : p a = true
      · rw [List.eraseP_cons_of_pos ha, List.filter_cons_of_pos ha, List.tail_cons]
      · rw [List.eraseP_cons_of_neg ha, List.filter_cons_of_neg ha, List.filter_cons_of_neg ha, ih]

/-- The items with another property stay. -/
theorem filter_eraseP_of_disjoint {α : Type} {p q : α → Bool} (h : ∀ a, p a = true → q a = false)
    (l : List α) : (l.eraseP p).filter q = l.filter q := by
  induction l with
  | nil => rfl
  | cons a l ih =>
      by_cases ha : p a = true
      · rw [List.eraseP_cons_of_pos ha, List.filter_cons_of_neg (by rw [h a ha]; exact nofun)]
      · rw [List.eraseP_cons_of_neg ha, List.filter_cons, List.filter_cons, ih]

/-! ### The pairs of a key -/

/-- The values that the table has under a key, the one that a lookup finds first. -/
def stored (t : GenericHashTable κ ν) (key : κ) : List ν :=
  ((t.buckets (t.bucketIndex key)).filter (t.matchesKey key)).map Prod.snd

/-- The table has the capacity and the functions it was made with, no mutex is locked, and every
pair is in the bucket of its key. -/
structure WellFormed (capacity : UInt64) (hash : κ → UInt64) (compare : κ → κ → Int)
    (t : GenericHashTable κ ν) : Prop where
  capacity_eq : t.capacity = capacity
  hash_eq : t.hashFunction = hash
  compare_eq : t.compareKeyFunction = compare
  unlocked : ∀ i, t.locked i = false
  placed : ∀ i, ∀ pair ∈ t.buckets i, i = hash pair.1 % capacity

section
variable {t : GenericHashTable κ ν}

/-- Equal keys have one bucket. -/
theorem WellFormed.bucketIndex_eq (hwf : WellFormed capacity hash compare t)
    (laws : KeyLaws hash compare) {a b : κ} (h : compare a b = 0) :
    t.bucketIndex a = t.bucketIndex b := by
  unfold bucketIndex
  rw [hwf.hash_eq, laws.hash a b h]

/-- Equal keys match the same pairs. -/
theorem WellFormed.matchesKey_eq (hwf : WellFormed capacity hash compare t)
    (laws : KeyLaws hash compare) {a b : κ} (h : compare a b = 0) :
    (t.matchesKey a : κ × ν → Bool) = t.matchesKey b := by
  funext pair
  unfold matchesKey
  rw [hwf.compare_eq, Bool.eq_iff_iff, beq_iff_eq, beq_iff_eq]
  exact ⟨fun ha => laws.equivalence.trans (laws.equivalence.symm h) ha,
    fun hb => laws.equivalence.trans h hb⟩

/-- Equal keys have one stack. -/
theorem WellFormed.stored_eq (hwf : WellFormed capacity hash compare t)
    (laws : KeyLaws hash compare) {a b : κ} (h : compare a b = 0) : stored t a = stored t b := by
  unfold stored
  rw [hwf.bucketIndex_eq laws h, hwf.matchesKey_eq laws h]

/-- A pair that matches a key does not match an unequal key. -/
theorem WellFormed.matchesKey_disjoint (hwf : WellFormed capacity hash compare t)
    (laws : KeyLaws hash compare) {a b : κ} (h : compare a b ≠ 0) (pair : κ × ν)
    (ha : t.matchesKey a pair = true) : t.matchesKey b pair = false := by
  by_contra hb
  rw [Bool.not_eq_false] at hb
  unfold matchesKey at ha hb
  rw [hwf.compare_eq, beq_iff_eq] at ha hb
  exact h (laws.equivalence.trans ha (laws.equivalence.symm hb))

/-- A new pair in the bucket of its key. -/
theorem WellFormed.push (hwf : WellFormed capacity hash compare t) (laws : KeyLaws hash compare)
    {key : κ} {pair : κ × ν} (hcopy : compare key pair.1 = 0) :
    WellFormed capacity hash compare (t.push (t.bucketIndex key) pair) := by
  refine ⟨hwf.capacity_eq, hwf.hash_eq, hwf.compare_eq, hwf.unlocked, ?_⟩
  intro i p hp
  have hp' : p ∈ Function.update t.buckets (t.bucketIndex key)
      (pair :: t.buckets (t.bucketIndex key)) i := hp
  by_cases hi : i = t.bucketIndex key
  · subst hi
    rw [Function.update_self, List.mem_cons] at hp'
    rcases hp' with rfl | hp'
    · rw [bucketIndex, hwf.hash_eq, hwf.capacity_eq, laws.hash _ _ hcopy]
    · exact hwf.placed _ p hp'
  · rw [Function.update_of_ne hi] at hp'
    exact hwf.placed i p hp'

/-- The stacks after a push. -/
theorem WellFormed.stored_push (hwf : WellFormed capacity hash compare t)
    (laws : KeyLaws hash compare) {key : κ} {pair : κ × ν} (hcopy : compare key pair.1 = 0)
    (key' : κ) :
    stored (t.push (t.bucketIndex key) pair) key'
      = if compare key key' = 0 then pair.2 :: stored t key' else stored t key' := by
  have hstored : stored (t.push (t.bucketIndex key) pair) key'
      = ((Function.update t.buckets (t.bucketIndex key) (pair :: t.buckets (t.bucketIndex key))
          (t.bucketIndex key')).filter (t.matchesKey key')).map Prod.snd := rfl
  rw [hstored]
  by_cases hkey : compare key key' = 0
  · have hmatch : t.matchesKey key' pair = true := by
      unfold matchesKey
      rw [hwf.compare_eq, beq_iff_eq]
      exact laws.equivalence.trans (laws.equivalence.symm hkey) hcopy
    rw [if_pos hkey, ← hwf.bucketIndex_eq laws hkey, Function.update_self,
      List.filter_cons_of_pos hmatch, List.map_cons, hwf.bucketIndex_eq laws hkey]
    rfl
  · rw [if_neg hkey]
    by_cases hbucket : t.bucketIndex key' = t.bucketIndex key
    · -- The two keys collide.
      have hmatch : t.matchesKey key pair = true := by
        unfold matchesKey
        rw [hwf.compare_eq, beq_iff_eq]
        exact hcopy
      have hother := hwf.matchesKey_disjoint laws hkey pair hmatch
      rw [hbucket, Function.update_self,
        List.filter_cons_of_neg (by rw [hother]; exact Bool.false_ne_true), ← hbucket]
      rfl
    · rw [Function.update_of_ne hbucket]
      rfl

/-- A bucket without the first pair of a key. -/
theorem WellFormed.erase (hwf : WellFormed capacity hash compare t) (key : κ) :
    WellFormed capacity hash compare (t.erase key) := by
  refine ⟨hwf.capacity_eq, hwf.hash_eq, hwf.compare_eq, hwf.unlocked, ?_⟩
  intro i p hp
  have hp' : p ∈ Function.update t.buckets (t.bucketIndex key)
      ((t.buckets (t.bucketIndex key)).eraseP (t.matchesKey key)) i := hp
  by_cases hi : i = t.bucketIndex key
  · subst hi
    rw [Function.update_self] at hp'
    exact hwf.placed _ p (List.mem_of_mem_eraseP hp')
  · rw [Function.update_of_ne hi] at hp'
    exact hwf.placed i p hp'

/-- The stacks after a `delete`. -/
theorem WellFormed.stored_erase (hwf : WellFormed capacity hash compare t)
    (laws : KeyLaws hash compare) (key key' : κ) :
    stored (t.erase key) key'
      = if compare key key' = 0 then (stored t key').tail else stored t key' := by
  have hstored : stored (t.erase key) key'
      = ((Function.update t.buckets (t.bucketIndex key)
          ((t.buckets (t.bucketIndex key)).eraseP (t.matchesKey key))
          (t.bucketIndex key')).filter (t.matchesKey key')).map Prod.snd := rfl
  rw [hstored]
  by_cases hkey : compare key key' = 0
  · rw [if_pos hkey, ← hwf.bucketIndex_eq laws hkey, Function.update_self,
      hwf.matchesKey_eq laws hkey, filter_eraseP_self, stored, List.map_tail,
      hwf.bucketIndex_eq laws hkey]
  · rw [if_neg hkey]
    by_cases hbucket : t.bucketIndex key' = t.bucketIndex key
    · rw [hbucket, Function.update_self,
        filter_eraseP_of_disjoint (hwf.matchesKey_disjoint laws hkey), ← hbucket]
      rfl
    · rw [Function.update_of_ne hbucket]
      rfl

/-- The test of the loops and the stack of the key. -/
theorem any_matchesKey_iff (t : GenericHashTable κ ν) (key : κ) :
    (t.buckets (t.bucketIndex key)).any (t.matchesKey key) = true ↔ stored t key ≠ [] := by
  unfold stored
  rw [ne_eq, List.map_eq_nil_iff, List.filter_eq_nil_iff, List.any_eq_true]
  simp

/-- The loop of `get` and the stack of the key. -/
theorem getLoop_stored (t : GenericHashTable κ ν) (key : κ) :
    t.getLoop key (t.buckets (t.bucketIndex key)) = match stored t key with
      | [] => (1, none)
      | value :: _ => (0, some value) := by
  rw [getLoop_eq, stored, ← List.head?_filter]
  cases (t.buckets (t.bucketIndex key)).filter (t.matchesKey key) with
  | nil => rfl
  | cons pair rest => rfl

end

/-! ### The steps -/

/-- A call of one thread alone is its part before the mutex and its section. -/
theorem run_eq_lockSection (t : GenericHashTable κ ν) (call : Call κ ν) :
    t.run call = match beforeLock call with
      | some r => some (r, t)
      | none => t.lockSection call := by
  cases call with
  | insert key value env =>
      cases key with
      | none => rfl
      | some key =>
          simp only [run, insertCall, beforeLock]
          split_ifs <;> rfl
  | get key outValue iterator => cases key <;> cases outValue <;> rfl
  | delete key iterator => cases key <;> rfl
  | contains key iterator => cases key <;> rfl

/-- The table and the number of nodes are those of the stacks. -/
structure Represents (laws : KeyLaws hash compare) (st : Stacks (Quotient (keySetoid laws)) ν)
    (capacity : UInt64) (t : GenericHashTable κ ν) (nodes : Nat) : Prop where
  wellFormed : WellFormed capacity hash compare t
  stored : ∀ key, stored t key = st (keyClass laws key)
  finite : st.Finite
  size : t.size.toNat = st.depth
  nodes : nodes = st.depth

section
variable {laws : KeyLaws hash compare} {st : Stacks (Quotient (keySetoid laws)) ν}
  {t t' : GenericHashTable κ ν} {nodes : Nat}

/-- A push of a copied pair. -/
theorem Represents.push (h : Represents laws st capacity t nodes) {key : κ} (pair : κ × ν)
    (hcopy : compare key pair.1 = 0) (hnodes : nodes < 2 ^ 64 - 1) :
    Represents laws (st.push (keyClass laws key) pair.2) capacity
      (t.push (t.bucketIndex key) pair) (nodes + 1) := by
  have hdepth := Stacks.depth_push h.finite (keyClass laws key) pair.2
  refine ⟨h.wellFormed.push laws hcopy, ?_, h.finite.push _ _, ?_, by rw [hdepth, h.nodes]⟩
  · intro key'
    rw [h.wellFormed.stored_push laws hcopy, h.stored]
    by_cases hkey : compare key key' = 0
    · rw [if_pos hkey, (keyClass_eq_iff laws key key').mpr hkey, Stacks.push_self]
    · have hne : keyClass laws key' ≠ keyClass laws key := fun heq =>
        hkey ((keyClass_eq_iff laws key key').mp heq.symm)
      rw [if_neg hkey, Stacks.push_of_ne _ _ hne]
  · -- The nodes in use bound the counter, so it does not wrap.
    show (t.size + 1).toNat = _
    have hsize := h.size
    have hcount := h.nodes
    rw [UInt64.toNat_add, hdepth]
    show (t.size.toNat + 1) % 2 ^ 64 = _
    rw [Nat.mod_eq_of_lt (by omega)]
    omega

/-- A `delete` of a key whose stack has items. -/
theorem Represents.erase (h : Represents laws st capacity t nodes) {key : κ}
    (hkey : st (keyClass laws key) ≠ []) :
    Represents laws (st.pop (keyClass laws key)) capacity (t.erase key) (nodes - 1) := by
  have hdepth := Stacks.depth_pop h.finite hkey
  have hcount := h.nodes
  refine ⟨h.wellFormed.erase key, ?_, h.finite.pop _, ?_, by omega⟩
  · intro key'
    rw [h.wellFormed.stored_erase laws, h.stored]
    by_cases hkey : compare key key' = 0
    · rw [if_pos hkey, (keyClass_eq_iff laws key key').mpr hkey, Stacks.pop_self]
    · have hne : keyClass laws key' ≠ keyClass laws key := fun heq =>
        hkey ((keyClass_eq_iff laws key key').mp heq.symm)
      rw [if_neg hkey, Stacks.pop_of_ne _ hne]
  · show (t.size - 1).toNat = _
    have hsize := h.size
    have hle : (1 : UInt64) ≤ t.size := by
      rw [UInt64.le_iff_toNat_le]
      show 1 ≤ t.size.toNat
      omega
    rw [UInt64.toNat_sub_of_le _ _ hle]
    show t.size.toNat - 1 = _
    omega

/-- The section of a call does what the call does on the stacks. -/
theorem Represents.lockSection (h : Represents laws st capacity t nodes) (i : Nat) {call : Call κ ν}
    {r : Result ν} (hsound : SoundCall compare call) (hbefore : beforeLock call = none)
    (hnode : hasNode nodes call = true) (hsection : t.lockSection call = some (r, t')) :
    Agrees laws st (.returned i call r) ∧
    Represents laws (applyEvent laws st (.returned i call r)) capacity t'
      (nodesAfter nodes call r) := by
  have hfree := h.wellFormed.unlocked
  cases call with
  | insert key value env =>
      cases key with
      | none => cases hbefore
      | some key =>
          obtain ⟨hmalloc, hmallocNode, hcopy⟩ := hsound
          obtain ⟨hcopyKey, hcopyValue⟩ : env.copyKey.1 = 0 ∧ env.copyValue.1 = 0 := by
            simp only [beforeLock] at hbefore
            split_ifs at hbefore with h₁ h₂ h₃
            exact ⟨not_not.mp h₂, not_not.mp h₃⟩
          have hroom : nodes < 2 ^ 64 - 1 := by
            simpa [hasNode, hmallocNode] using hnode
          have hsection' : t.insertSection (t.bucketIndex key) (env.copyKey.2, env.copyValue.2)
              env.mallocNode = some (r, t') := hsection
          rw [insertSection_eq (hfree _), hmallocNode, if_pos rfl] at hsection'
          obtain ⟨rfl, rfl⟩ := Prod.mk.inj (Option.some.inj hsection')
          refine ⟨iff_of_true rfl ⟨hcopyKey, hcopyValue⟩, ?_⟩
          exact h.push (env.copyKey.2, env.copyValue.2) (hcopy hcopyKey) hroom
  | get key outValue iterator =>
      obtain rfl : iterator = true := hsound
      cases key with
      | none => cases hbefore
      | some key =>
          cases outValue with
          | false => cases hbefore
          | true =>
              have hsection' : t.getSection key true = some (r, t') := hsection
              rw [getSection_eq (hfree _), if_pos rfl, getLoop_stored, h.stored] at hsection'
              obtain ⟨hr, rfl⟩ := Prod.mk.inj (Option.some.inj hsection')
              refine ⟨?_, h⟩
              simp only [Agrees]
              cases hst : st (keyClass laws key) with
              | nil => simpa [hst] using hr.symm
              | cons value rest => simpa [hst] using hr.symm
  | delete key iterator =>
      obtain rfl : iterator = true := hsound
      cases key with
      | none => cases hbefore
      | some key =>
          have hsection' : t.deleteSection key true = some (r, t') := hsection
          have hany := any_matchesKey_iff t key
          rw [h.stored] at hany
          rw [deleteSection_eq (hfree _), if_pos rfl] at hsection'
          by_cases hkey : st (keyClass laws key) ≠ []
          · rw [if_pos (hany.mpr hkey)] at hsection'
            obtain ⟨rfl, rfl⟩ := Prod.mk.inj (Option.some.inj hsection')
            exact ⟨iff_of_true rfl hkey, h.erase hkey⟩
          · rw [if_neg (fun hc => hkey (hany.mp hc))] at hsection'
            obtain ⟨rfl, rfl⟩ := Prod.mk.inj (Option.some.inj hsection')
            exact ⟨iff_of_false (by simp) hkey, h⟩
  | contains key iterator =>
      obtain rfl : iterator = true := hsound
      cases key with
      | none => cases hbefore
      | some key =>
          have hsection' : t.containsSection key true = some (r, t') := hsection
          have hany := any_matchesKey_iff t key
          rw [h.stored] at hany
          rw [containsSection_eq (hfree _), if_pos rfl, containsLoop_eq] at hsection'
          obtain ⟨rfl, rfl⟩ := Prod.mk.inj (Option.some.inj hsection')
          refine ⟨?_, h⟩
          by_cases hkey : st (keyClass laws key) ≠ []
          · exact iff_of_true (if_pos (hany.mpr hkey)) hkey
          · refine iff_of_false ?_ hkey
            rw [if_neg (fun hc => hkey (hany.mp hc))]
            exact one_ne_zero

/-- `generic_hash_table_is_empty` and the stacks. -/
theorem isEmpty_iff_depth (h : Represents laws st capacity t nodes) :
    t.isEmpty = 1 ↔ st.depth = 0 := by
  have hsize := h.size
  have hzero : t.size = 0 ↔ t.size.toNat = 0 := by
    rw [← UInt64.toNat_inj]
    rfl
  unfold isEmpty
  rw [← hsize, ← hzero]
  split <;> simp_all

/-- A call that returns before it takes a mutex has failed, and the stacks stay. -/
theorem beforeLock_failed (laws : KeyLaws hash compare)
    (st : Stacks (Quotient (keySetoid laws)) ν) (i : Nat) {call : Call κ ν} {r : Result ν}
    (h : beforeLock call = some r) (hsound : SoundCall compare call) :
    Agrees laws st (.returned i call r) ∧ applyEvent laws st (.returned i call r) = st := by
  cases call with
  | insert key value env =>
      cases key with
      | none =>
          obtain rfl := Option.some.inj h
          exact ⟨one_ne_zero, rfl⟩
      | some key =>
          have hcode : r.code ≠ 0 ∧ ¬ (env.copyKey.1 = 0 ∧ env.copyValue.1 = 0) := by
            simp only [beforeLock] at h
            rw [if_neg (by rw [hsound.1]; exact nofun)] at h
            split_ifs at h with h₁ h₂
            · obtain rfl := Option.some.inj h
              exact ⟨h₁, fun hc => h₁ hc.1⟩
            · obtain rfl := Option.some.inj h
              exact ⟨h₂, fun hc => h₂ hc.2⟩
          exact ⟨iff_of_false hcode.1 hcode.2, if_neg hcode.1⟩
  | get key outValue iterator =>
      cases key with
      | none =>
          obtain rfl := Option.some.inj h
          exact ⟨one_ne_zero, rfl⟩
      | some key =>
          cases outValue with
          | false =>
              obtain rfl := Option.some.inj h
              exact ⟨one_ne_zero, rfl⟩
          | true => cases h
  | delete key iterator =>
      cases key with
      | none =>
          obtain rfl := Option.some.inj h
          exact ⟨one_ne_zero, rfl⟩
      | some key => cases h
  | contains key iterator =>
      cases key with
      | none =>
          obtain rfl := Option.some.inj h
          exact ⟨one_ne_zero, rfl⟩
      | some key => cases h

end

/-! ### The runs -/

/-- What holds after a run. -/
structure StackInv (laws : KeyLaws hash compare) (capacity : UInt64) (tr : List (Event κ ν))
    (s : State κ ν) : Prop where
  represents : Represents laws (stacksOf laws tr) capacity s.table s.nodes
  pc : ∀ t call, s.pc t = some call → SoundCall compare call ∧ beforeLock call = none
  agrees : ∀ pre e post, tr = pre ++ e :: post → Agrees laws (stacksOf laws pre) e

/-- A step that shows an event. -/
theorem StackInv.snoc {laws : KeyLaws hash compare} {tr : List (Event κ ν)} {s s' : State κ ν}
    (hinv : StackInv laws capacity tr s) {e : Event κ ν}
    (hrep : Represents laws (applyEvent laws (stacksOf laws tr) e) capacity s'.table s'.nodes)
    (hagrees : Agrees laws (stacksOf laws tr) e)
    (hpc : ∀ t call, s'.pc t = some call → SoundCall compare call ∧ beforeLock call = none) :
    StackInv laws capacity (tr ++ (some e).toList) s' := by
  refine ⟨?_, hpc, ?_⟩
  · rw [Option.toList_some, stacksOf_append]
    exact hrep
  · intro pre e' post htr
    rcases append_toList_eq_append_cons htr with ⟨post', rfl, -⟩ | ⟨he, rfl, -⟩
    · exact hinv.agrees pre e' post' rfl
    · obtain rfl := Option.some.inj he
      exact hagrees

/-- `StackInv` holds in every sound run. -/
theorem stackInv_of_run (laws : KeyLaws hash compare) {tr : List (Event κ ν)} {s : State κ ν}
    (h : (machine capacity hcap hash compare).RunIf (SoundStep compare) tr s) :
    StackInv laws capacity tr s := by
  refine h.induction ?_ ?_
  · refine ⟨⟨⟨rfl, rfl, rfl, fun _ => rfl, ?_⟩, fun _ => rfl, Stacks.finite_nil, ?_,
      Stacks.depth_nil.symm⟩, ?_, ?_⟩
    · intro i pair hpair
      cases hpair
    · exact Stacks.depth_nil.symm
    · intro t call hcall
      cases hcall
    · intro pre e post htr
      simp at htr
  · intro tr s a s' e _ hinv hsound hnext
    cases a with
    | call t call =>
        simp only [machine, next] at hnext
        split at hnext
        · -- The call returns at once.
          rename_i r hpc hbefore
          obtain ⟨rfl, rfl⟩ := Prod.mk.inj (Option.some.inj hnext)
          obtain ⟨hagrees, hsame⟩ := beforeLock_failed laws (stacksOf laws tr) t hbefore hsound
          refine hinv.snoc ?_ hagrees hinv.pc
          rw [hsame]
          exact hinv.represents
        · rename_i hpc hbefore
          obtain ⟨rfl, rfl⟩ := Prod.mk.inj (Option.some.inj hnext)
          rw [Option.toList_none, List.append_nil]
          refine ⟨hinv.represents, ?_, hinv.agrees⟩
          intro t' call' hcall
          by_cases ht : t' = t
          · subst ht
            have hcall' : Function.update s.pc t' (some call) t' = some call' := hcall
            rw [Function.update_self] at hcall'
            obtain rfl := Option.some.inj hcall'
            exact ⟨hsound, hbefore⟩
          · have hcall' : Function.update s.pc t (some call) t' = some call' := hcall
            rw [Function.update_of_ne ht] at hcall'
            exact hinv.pc t' call' hcall'
        · cases hnext
    | lockSection t =>
        simp only [machine, next] at hnext
        split at hnext
        · cases hnext
        · rename_i call hpc
          simp only [Option.ite_none_right_eq_some, Option.map_eq_some_iff] at hnext
          obtain ⟨hnode, ⟨r, table⟩, hsection, hs⟩ := hnext
          obtain ⟨rfl, rfl⟩ := Prod.mk.inj hs
          obtain ⟨hsoundCall, hbefore⟩ := hinv.pc t call hpc
          obtain ⟨hagrees, hrep⟩ := hinv.represents.lockSection t hsoundCall hbefore hnode hsection
          refine hinv.snoc hrep hagrees ?_
          intro t' call' hcall
          have hcall' : Function.update s.pc t none t' = some call' := hcall
          by_cases ht : t' = t
          · subst ht
            rw [Function.update_self] at hcall'
            cases hcall'
          · rw [Function.update_of_ne ht] at hcall'
            exact hinv.pc t' call' hcall'
    | getSize t =>
        simp only [machine, next, Option.ite_none_right_eq_some, Option.some.injEq,
          Prod.mk.injEq] at hnext
        obtain ⟨-, rfl, rfl⟩ := hnext
        exact hinv.snoc hinv.represents hinv.represents.size hinv.pc
    | isEmpty t =>
        simp only [machine, next, Option.ite_none_right_eq_some, Option.some.injEq,
          Prod.mk.injEq] at hnext
        obtain ⟨-, rfl, rfl⟩ := hnext
        refine hinv.snoc hinv.represents ?_ hinv.pc
        exact isEmpty_iff_depth hinv.represents

/-- The key of a call that a bucket section answers. -/
def Event.key : Event κ ν → Option κ
  | .returned _ (.insert key _ _) _ => key
  | .returned _ (.get key _ _) _ => key
  | .returned _ (.delete key _) _ => key
  | .returned _ (.contains key _) _ => key
  | _ => none

/-- A call on a key leaves the stacks of the unequal keys alone. -/
theorem applyEvent_of_ne (laws : KeyLaws hash compare)
    (st : Stacks (Quotient (keySetoid laws)) ν) {e : Event κ ν} {key key' : κ}
    (he : e.key = some key) (hne : compare key key' ≠ 0) :
    applyEvent laws st e (keyClass laws key') = st (keyClass laws key') := by
  have hclass : keyClass laws key' ≠ keyClass laws key := fun heq =>
    hne ((keyClass_eq_iff laws key key').mp heq.symm)
  cases e with
  | returned t call r =>
      cases call with
      | insert k value env =>
          obtain rfl : k = some key := he
          simp only [applyEvent]
          split
          · exact Stacks.push_of_ne _ _ hclass
          · rfl
      | get k outValue iterator => rfl
      | delete k iterator =>
          obtain rfl : k = some key := he
          simp only [applyEvent]
          split
          · exact Stacks.pop_of_ne _ hclass
          · rfl
      | contains k iterator => rfl
  | size t size => cases he
  | empty t code => cases he

/-- The hash table refines a stack for each class of equal keys, in every run without a failed
allocation. Every pair is in the bucket of its key. The pairs of a key are its stack, top first.
Every call returned what the stacks before it say, and a call on one key leaves the stacks of all
unequal keys alone. `_size` is the number of items in all stacks. -/
theorem table_refines_stacks (laws : KeyLaws hash compare) {tr : List (Event κ ν)}
    {s : State κ ν} (h : (machine capacity hcap hash compare).RunIf (SoundStep compare) tr s) :
    (∀ i, ∀ pair ∈ s.table.buckets i, i = hash pair.1 % capacity) ∧
    (∀ key, stored s.table key = stacksOf laws tr (keyClass laws key)) ∧
    (∀ pre e post, tr = pre ++ e :: post → Agrees laws (stacksOf laws pre) e ∧
      ∀ key key', e.key = some key → compare key key' ≠ 0 →
        stacksOf laws (pre ++ [e]) (keyClass laws key') = stacksOf laws pre (keyClass laws key')) ∧
    s.table.getSize.toNat = (stacksOf laws tr).depth ∧
    (s.table.isEmpty = 1 ↔ (stacksOf laws tr).depth = 0) := by
  have hinv := stackInv_of_run laws h
  refine ⟨hinv.represents.wellFormed.placed, hinv.represents.stored, ?_, hinv.represents.size,
    isEmpty_iff_depth hinv.represents⟩
  intro pre e post htr
  refine ⟨hinv.agrees pre e post htr, ?_⟩
  intro key key' he hne
  rw [stacksOf_append]
  exact applyEvent_of_ne laws _ he hne

/-- The comparison of the witness: two keys are equal when they have the same last bit. -/
def compareParity (a b : UInt64) : Int := if a % 2 = b % 2 then 0 else 1

/-- Its laws, with the last bit as the hash. -/
theorem parityLaws : KeyLaws (fun a : UInt64 => a % 2) compareParity where
  equivalence := by
    have hiff : ∀ a b, compareParity a b = 0 ↔ a % 2 = b % 2 := by
      intro a b
      unfold compareParity
      split_ifs with h <;> simp [h]
    refine ⟨fun a => (hiff a a).mpr rfl, fun h => (hiff _ _).mpr ((hiff _ _).mp h).symm, ?_⟩
    intro a b c hab hbc
    exact (hiff _ _).mpr (((hiff _ _).mp hab).trans ((hiff _ _).mp hbc))
  hash := by
    intro a b h
    unfold compareParity at h
    split_ifs at h with hab
    · exact hab
    · cases h

/-- Two threads push 5 and 6 under equal keys, and one of them deletes the top. -/
def pushPushDelete : List (Action UInt64 Nat) :=
  [.call 0 (.insert (some 1) 5 ⟨true, (0, 3), (0, 5), true⟩),
   .call 1 (.insert (some 7) 6 ⟨true, (0, 1), (0, 6), true⟩),
   .lockSection 1, .lockSection 0, .call 1 (.delete (some 9) true), .lockSection 1,
   .call 0 (.get (some 1) true true), .lockSection 0]

/-- The table after these steps has one pair, which `get` finds. -/
theorem table_refines_stacks_pushPushDelete :
    ∃ tr s, (machine 1 (by decide) (fun a : UInt64 => a % 2) compareParity).RunIf
        (SoundStep compareParity) tr s ∧
      .returned 0 (.get (some 1) true true) ⟨0, some (some 6)⟩ ∈ tr ∧
      stored s.table 1 = stacksOf parityLaws tr (keyClass parityLaws 1) := by
  obtain ⟨tr, s, hrun, hp⟩ := Machine.runIf_of_exec
    (M := machine 1 (by decide) (fun a : UInt64 => a % 2) compareParity)
    (K := SoundStep compareParity) pushPushDelete
    (fun tr _ => decide (.returned 0 (.get (some 1) true true) ⟨0, some (some 6)⟩ ∈ tr))
    (by decide +kernel)
  exact ⟨tr, s, hrun, of_decide_eq_true hp, (table_refines_stacks parityLaws hrun).2.1 1⟩

end Miez.GenericHashTable
