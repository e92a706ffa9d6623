import Mathlib

/-!
# `Miez.Lib.Ownership`: resources with one owner

Each holder of `ι` holds at most one resource, and a pool holds a list of them. `SingleOwner`
says that every live resource is held by one holder or is in the pool once, and that nothing else
is held. The lemmas keep this when a resource is made, moves between a holder and the pool, or
ends. `SingleOwner.existsUnique_owner` is the property in one sentence.
-/

set_option autoImplicit false

namespace Miez.Lib

variable {ι κ : Type}

/-- Every live resource has exactly one place: a holder, or a position in the pool. -/
structure SingleOwner (held : ι → Option κ) (pool : List κ) (live : κ → Prop) : Prop where
  held_live : ∀ i k, held i = some k → live k
  pool_live : ∀ k ∈ pool, live k
  unique : ∀ i j k, held i = some k → held j = some k → i = j
  apart : ∀ i k, held i = some k → k ∉ pool
  nodup : pool.Nodup
  owned : ∀ k, live k → (∃ i, held i = some k) ∨ k ∈ pool

/-- The owner of a resource: a holder, or a position in the pool. -/
inductive Owner (ι : Type) where
  | holder (i : ι)
  | node (j : Nat)
deriving DecidableEq

/-- The owner has the resource `k`. -/
def Owner.Owns (held : ι → Option κ) (pool : List κ) (k : κ) : Owner ι → Prop
  | .holder i => held i = some k
  | .node j => pool[j]? = some k

namespace SingleOwner

variable {held held' : ι → Option κ} {pool pool' : List κ} {live live' : κ → Prop} {i : ι} {k : κ}

/-- Every live resource has exactly one owner. -/
theorem existsUnique_owner (h : SingleOwner held pool live) (hk : live k) :
    ∃! o : Owner ι, o.Owns held pool k := by
  rcases h.owned k hk with ⟨i, hi⟩ | hmem
  · refine ⟨.holder i, hi, ?_⟩
    intro o ho
    cases o with
    | holder j => rw [h.unique j i k ho hi]
    | node j => exact absurd (List.mem_of_getElem? ho) (h.apart i k hi)
  · obtain ⟨j, hj, hget⟩ := List.getElem_of_mem hmem
    refine ⟨.node j, by rw [← hget]; exact List.getElem?_eq_getElem hj, ?_⟩
    intro o ho
    cases o with
    | holder i => exact absurd hmem (h.apart i k ho)
    | node j' =>
        obtain ⟨hj', hget'⟩ := List.getElem?_eq_some_iff.mp ho
        rw [(h.nodup.getElem_inj_iff).mp (hget'.trans hget.symm)]

/-- Only the live resources matter, and they are the same. -/
theorem congr (h : SingleOwner held pool live) (hheld : held' = held) (hpool : pool' = pool)
    (hlive : ∀ k, live' k ↔ live k) : SingleOwner held' pool' live' := by
  rw [hheld, hpool, show live' = live from funext fun k => propext (hlive k)]
  exact h

variable [DecidableEq ι]

/-- A holder with empty hands makes a new resource. -/
theorem create (h : SingleOwner held pool live) (hi : held i = none) (hk : ¬ live k)
    (hlive : ∀ k', live' k' ↔ live k' ∨ k' = k) :
    SingleOwner (Function.update held i (some k)) pool live' := by
  have hcases : ∀ j k', Function.update held i (some k) j = some k' →
      (j = i ∧ k' = k) ∨ (j ≠ i ∧ held j = some k') := by
    intro j k' hj
    by_cases hji : j = i
    · subst hji
      rw [Function.update_self] at hj
      exact Or.inl ⟨rfl, (Option.some.inj hj).symm⟩
    · rw [Function.update_of_ne hji] at hj
      exact Or.inr ⟨hji, hj⟩
  refine ⟨?_, ?_, ?_, ?_, h.nodup, ?_⟩
  · intro j k' hj
    rw [hlive]
    rcases hcases j k' hj with ⟨-, hk'⟩ | ⟨-, hj⟩
    · exact Or.inr hk'
    · exact Or.inl (h.held_live j k' hj)
  · intro k' hmem
    exact (hlive k').mpr (Or.inl (h.pool_live k' hmem))
  · intro j j' k' hj hj'
    rcases hcases j k' hj with ⟨hji, hk₁⟩ | ⟨-, hj₁⟩
    · rcases hcases j' k' hj' with ⟨hji', -⟩ | ⟨-, hj₂⟩
      · rw [hji, hji']
      · rw [hk₁] at hj₂
        exact absurd (h.held_live j' k hj₂) hk
    · rcases hcases j' k' hj' with ⟨-, hk₂⟩ | ⟨-, hj₂⟩
      · rw [hk₂] at hj₁
        exact absurd (h.held_live j k hj₁) hk
      · exact h.unique j j' k' hj₁ hj₂
  · intro j k' hj
    rcases hcases j k' hj with ⟨-, rfl⟩ | ⟨-, hj⟩
    · exact fun hmem => hk (h.pool_live k' hmem)
    · exact h.apart j k' hj
  · intro k' hk'
    rcases (hlive k').mp hk' with hk' | rfl
    · rcases h.owned k' hk' with ⟨j, hj⟩ | hmem
      · have hji : j ≠ i := by
          rintro rfl
          rw [hi] at hj
          cases hj
        exact Or.inl ⟨j, by rw [Function.update_of_ne hji]; exact hj⟩
      · exact Or.inr hmem
    · exact Or.inl ⟨i, Function.update_self ..⟩

/-- A holder with empty hands takes a resource out of the pool. -/
theorem take (h : SingleOwner held pool live) (hi : held i = none) (hpool : pool.Perm (k :: pool')) :
    SingleOwner (Function.update held i (some k)) pool' live := by
  have hnodup : (k :: pool').Nodup := hpool.nodup_iff.mp h.nodup
  obtain ⟨hk, hnodup'⟩ := List.nodup_cons.mp hnodup
  -- Without the resource, it would not be live; taking it is making it anew.
  have hless : SingleOwner held pool' fun k' => live k' ∧ k' ≠ k := by
    refine ⟨?_, ?_, h.unique, ?_, hnodup', ?_⟩
    · intro j k' hj
      refine ⟨h.held_live j k' hj, ?_⟩
      rintro rfl
      exact h.apart j k' hj (hpool.mem_iff.mpr (List.mem_cons_self ..))
    · intro k' hmem
      refine ⟨h.pool_live k' (hpool.mem_iff.mpr (List.mem_cons_of_mem k hmem)), ?_⟩
      rintro rfl
      exact hk hmem
    · intro j k' hj hmem
      exact h.apart j k' hj (hpool.mem_iff.mpr (List.mem_cons_of_mem k hmem))
    · rintro k' ⟨hk', hne⟩
      rcases h.owned k' hk' with hj | hmem
      · exact Or.inl hj
      · rcases List.mem_cons.mp (hpool.mem_iff.mp hmem) with rfl | hmem
        · exact absurd rfl hne
        · exact Or.inr hmem
  refine hless.create hi (by simp) ?_
  intro k'
  have hlive : live k := h.pool_live k (hpool.mem_iff.mpr (List.mem_cons_self ..))
  constructor
  · intro hk'
    by_cases heq : k' = k
    · exact Or.inr heq
    · exact Or.inl ⟨hk', heq⟩
  · rintro (⟨hk', -⟩ | rfl)
    · exact hk'
    · exact hlive

/-- The resource of a holder ends. -/
theorem release (h : SingleOwner held pool live) (hi : held i = some k)
    (hlive : ∀ k', live' k' ↔ live k' ∧ k' ≠ k) :
    SingleOwner (Function.update held i none) pool live' := by
  have hcases : ∀ j k', Function.update held i none j = some k' → j ≠ i ∧ held j = some k' := by
    intro j k' hj
    by_cases hji : j = i
    · subst hji
      rw [Function.update_self] at hj
      cases hj
    · rw [Function.update_of_ne hji] at hj
      exact ⟨hji, hj⟩
  refine ⟨?_, ?_, ?_, ?_, h.nodup, ?_⟩
  · intro j k' hj
    obtain ⟨hji, hj⟩ := hcases j k' hj
    refine (hlive k').mpr ⟨h.held_live j k' hj, ?_⟩
    rintro rfl
    exact hji (h.unique j i k' hj hi)
  · intro k' hmem
    refine (hlive k').mpr ⟨h.pool_live k' hmem, ?_⟩
    rintro rfl
    exact h.apart i k' hi hmem
  · intro j j' k' hj hj'
    exact h.unique j j' k' (hcases j k' hj).2 (hcases j' k' hj').2
  · intro j k' hj
    exact h.apart j k' (hcases j k' hj).2
  · intro k' hk'
    obtain ⟨hk', hne⟩ := (hlive k').mp hk'
    rcases h.owned k' hk' with ⟨j, hj⟩ | hmem
    · have hji : j ≠ i := by
        rintro rfl
        exact hne (Option.some.inj (hj.symm.trans hi))
      exact Or.inl ⟨j, by rw [Function.update_of_ne hji]; exact hj⟩
    · exact Or.inr hmem

/-- A holder puts its resource into the pool. -/
theorem put (h : SingleOwner held pool live) (hi : held i = some k) :
    SingleOwner (Function.update held i none) (k :: pool) live := by
  have hless : SingleOwner (Function.update held i none) pool fun k' => live k' ∧ k' ≠ k :=
    h.release hi fun _ => Iff.rfl
  refine ⟨?_, ?_, hless.unique, ?_, ?_, ?_⟩
  · intro j k' hj
    exact (hless.held_live j k' hj).1
  · intro k' hmem
    rcases List.mem_cons.mp hmem with rfl | hmem
    · exact h.held_live i k' hi
    · exact h.pool_live k' hmem
  · intro j k' hj hmem
    rcases List.mem_cons.mp hmem with rfl | hmem
    · exact (hless.held_live j k' hj).2 rfl
    · exact hless.apart j k' hj hmem
  · exact List.nodup_cons.mpr ⟨h.apart i k hi, h.nodup⟩
  · intro k' hk'
    by_cases hne : k' = k
    · exact Or.inr (by rw [hne]; exact List.mem_cons_self ..)
    · exact (hless.owned k' ⟨hk', hne⟩).imp_right (List.mem_cons_of_mem k)

omit [DecidableEq ι] in
/-- The first resource of the pool ends. -/
theorem drop (h : SingleOwner held (k :: pool) live) (hlive : ∀ k', live' k' ↔ live k' ∧ k' ≠ k) :
    SingleOwner held pool live' := by
  obtain ⟨hk, hnodup⟩ := List.nodup_cons.mp h.nodup
  refine ⟨?_, ?_, h.unique, ?_, hnodup, ?_⟩
  · intro j k' hj
    refine (hlive k').mpr ⟨h.held_live j k' hj, ?_⟩
    rintro rfl
    exact h.apart j k' hj (List.mem_cons_self ..)
  · intro k' hmem
    refine (hlive k').mpr ⟨h.pool_live k' (List.mem_cons_of_mem k hmem), ?_⟩
    rintro rfl
    exact hk hmem
  · intro j k' hj hmem
    exact h.apart j k' hj (List.mem_cons_of_mem k hmem)
  · intro k' hk'
    obtain ⟨hk', hne⟩ := (hlive k').mp hk'
    refine (h.owned k' hk').imp_right ?_
    intro hmem
    exact (List.mem_cons.mp hmem).resolve_left hne

end SingleOwner

end Miez.Lib
