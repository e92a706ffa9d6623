import Mathlib

/-!
# `Miez.Lib.Threads`: one thread of a table moves

A concurrent state holds a table of program points, and a step changes one entry of it. These
are the facts an invariant over all threads needs for such a step. A sum over the threads
changes by the entry of the thread that moved (`sum_update_add`). A property of every thread
is checked at the thread that moved and kept at the others (`forall_update`). `LockInv` is the
invariant of a mutex: the holder is the one thread whose program point is inside a critical
section. `LockInv.step` keeps it, and `LockInv.unique` is mutual exclusion.

`Deadlock` is a cycle of threads, each waiting for a mutex that the next one holds.
`LockOrdered` says that a thread waits only for mutexes that come after the ones it holds, and
`LockOrdered.not_deadlock` is the classical consequence.
-/

set_option autoImplicit false

namespace Miez.Lib

variable {ι β : Type} [DecidableEq ι]

/-- A sum over a table after one entry changed. The old entry stands on the left, so the
equation needs no subtraction. -/
theorem sum_update_add {M : Type} [AddCommMonoid M] [Fintype ι] (g : β → M) (f : ι → β) (i : ι)
    (b : β) :
    ∑ j, g (Function.update f i b j) + g (f i) = ∑ j, g (f j) + g b := by
  have hrest : ∑ j ∈ Finset.univ.erase i, g (Function.update f i b j)
      = ∑ j ∈ Finset.univ.erase i, g (f j) :=
    Finset.sum_congr rfl fun j hj => by
      rw [Function.update_of_ne (Finset.ne_of_mem_erase hj)]
  rw [← Finset.sum_erase_add Finset.univ _ (Finset.mem_univ i),
    ← Finset.sum_erase_add Finset.univ (fun j => g (f j)) (Finset.mem_univ i), hrest,
    Function.update_self]
  exact add_right_comm _ _ _

/-- A property of every entry after one entry changed. -/
theorem forall_update {P : ι → β → Prop} {f : ι → β} {i : ι} {b : β} (hnew : P i b)
    (hold : ∀ j, j ≠ i → P j (f j)) : ∀ j, P j (Function.update f i b j) := by
  intro j
  by_cases hj : j = i
  · subst hj
    rwa [Function.update_self]
  · rw [Function.update_of_ne hj]
    exact hold j hj

/-- The invariant of a mutex: the threads inside a critical section are exactly the holder,
so there is at most one of them. -/
def LockInv {T : Type} (inside : T → Prop) (holder : Option T) : Prop :=
  ∀ t, inside t ↔ holder = some t

/-- What one step of the thread `me` does to a mutex: nothing, an acquisition when the mutex
is free, or a release. `old` and `new` tell whether the thread is inside a critical section
before and after the step. -/
inductive LockStep {T : Type} (me : T) (old new : Prop) (holder holder' : Option T) : Prop where
  | keep (hholder : holder' = holder) (hpc : new ↔ old)
  | acquire (hfree : holder = none) (hholder : holder' = some me) (hold : ¬ old) (hnew : new)
  | release (hholder : holder' = none) (hold : old) (hnew : ¬ new)

/-- A step of one thread keeps the invariant of a mutex. -/
theorem LockInv.step {T : Type} {inside inside' : T → Prop} {holder holder' : Option T}
    (h : LockInv inside holder) (me : T)
    (hstep : LockStep me (inside me) (inside' me) holder holder')
    (hother : ∀ t, t ≠ me → (inside' t ↔ inside t)) : LockInv inside' holder' := by
  intro t
  by_cases ht : t = me
  · subst ht
    cases hstep with
    | keep hholder hpc => rw [hholder, hpc]; exact h t
    | acquire _ hholder _ hnew => exact iff_of_true hnew hholder
    | release hholder _ hnew => exact iff_of_false hnew (by simp [hholder])
  · rw [hother t ht, h t]
    cases hstep with
    | keep hholder _ => rw [hholder]
    | acquire hfree hholder _ _ => simp [hfree, hholder, Ne.symm ht]
    | release hholder hold _ => simp [hholder, (h me).mp hold, Ne.symm ht]

/-- The invariant of a mutex when `P` tells the program points inside the critical section and
one entry of the table of program points changes. -/
theorem LockInv.update {P : β → Prop} {f : ι → β} {holder holder' : Option ι}
    (h : LockInv (fun t => P (f t)) holder) (me : ι) (b : β)
    (hstep : LockStep me (P (f me)) (P b) holder holder') :
    LockInv (fun t => P (Function.update f me b t)) holder' := by
  refine h.step me ?_ ?_
  · simpa only [Function.update_self] using hstep
  · intro t ht
    simp only [Function.update_of_ne ht]

/-- Two threads inside a critical section of one mutex are the same thread. -/
theorem LockInv.unique {T : Type} {inside : T → Prop} {holder : Option T}
    (h : LockInv inside holder) {t t' : T} (ht : inside t) (ht' : inside t') : t = t' :=
  Option.some.inj (((h t).mp ht).symm.trans ((h t').mp ht'))

/-! ### The order of mutexes -/

section
variable {T M R : Type} {waitsFor : T → Option M} {holder : M → Option T}

/-- The thread `t` waits for a mutex that `t'` holds. -/
def WaitsOn (waitsFor : T → Option M) (holder : M → Option T) (t t' : T) : Prop :=
  ∃ m, waitsFor t = some m ∧ holder m = some t'

/-- A thread waits for a mutex that it holds itself, or there is a cycle of threads each of
which waits for a mutex held by the next. -/
def Deadlock (waitsFor : T → Option M) (holder : M → Option T) : Prop :=
  ∃ t, Relation.TransGen (WaitsOn waitsFor holder) t t

/-- A thread waits only for mutexes whose rank is above the ranks of those it holds. -/
def LockOrdered [Preorder R] (rank : M → R) (waitsFor : T → Option M)
    (holder : M → Option T) : Prop :=
  ∀ t m m', holder m = some t → waitsFor t = some m' → rank m < rank m'

/-- Along a chain of waiting threads the ranks do not go down. -/
theorem LockOrdered.rank_le [Preorder R] {rank : M → R}
    (h : LockOrdered rank waitsFor holder) {t t' : T}
    (hchain : Relation.TransGen (WaitsOn waitsFor holder) t t') :
    ∃ m m', waitsFor t = some m ∧ holder m' = some t' ∧ rank m ≤ rank m' := by
  induction hchain with
  | single hwaits =>
      obtain ⟨m, hm, hheld⟩ := hwaits
      exact ⟨m, m, hm, hheld, le_rfl⟩
  | tail _ hwaits ih =>
      obtain ⟨m, m₁, hm, hheld₁, hle⟩ := ih
      obtain ⟨m₂, hm₂, hheld₂⟩ := hwaits
      exact ⟨m, m₂, hm, hheld₂, hle.trans (h _ m₁ m₂ hheld₁ hm₂).le⟩

/-- Mutexes taken in the order of a rank do not deadlock. -/
theorem LockOrdered.not_deadlock [Preorder R] {rank : M → R}
    (h : LockOrdered rank waitsFor holder) : ¬ Deadlock waitsFor holder := by
  rintro ⟨t, hcycle⟩
  obtain ⟨m, m', hm, hheld, hle⟩ := h.rank_le hcycle
  exact (h t m' m hheld hm).not_ge hle

end

end Miez.Lib
