import Miez.Lib.Machine

/-!
# `Miez.Lib.Ledger`: conservation along a run

What the events of a run take over and what they give back is added up in two ledgers. When in
every step what is held, and what is taken over, is what is given back and what is held afterwards,
then the same is true of a whole run (`RunIf.conserved`). What is held is a relation between a
state and a multiset, so that it can carry an invariant of the state.
-/

set_option autoImplicit false

namespace Miez.Lib

variable {β ε : Type}

/-- The entries of all events. -/
def ledger (entry : ε → Multiset β) (tr : List ε) : Multiset β := (tr.map entry).sum

/-- The entry of a step. -/
def entryOf (entry : ε → Multiset β) (e : Option ε) : Multiset β := e.elim 0 entry

@[simp] theorem ledger_nil (entry : ε → Multiset β) : ledger entry [] = 0 := rfl

/-- The ledger after one more step. -/
theorem ledger_append_toList (entry : ε → Multiset β) (tr : List ε) (e : Option ε) :
    ledger entry (tr ++ e.toList) = ledger entry tr + entryOf entry e := by
  rw [ledger, List.map_append, List.sum_append]
  cases e with
  | none => simp [ledger, entryOf]
  | some x => simp [ledger, entryOf]

/-- The ledger of two entries of each event. -/
theorem ledger_add (entry entry' : ε → Multiset β) (tr : List ε) :
    ledger (fun e => entry e + entry' e) tr = ledger entry tr + ledger entry' tr := by
  rw [ledger, List.sum_map_add]
  rfl

namespace Machine

variable {σ α : Type} {M : Machine σ α ε} {K : σ → α → Prop}

/-- The conservation rule. -/
theorem RunIf.conserved {Holds : σ → Multiset β → Prop} {taken given : ε → Multiset β}
    (hinit : Holds M.init 0)
    (hstep : ∀ s a s' e held, K s a → M.next s a = some (s', e) → Holds s held →
      ∃ held', Holds s' held' ∧ held + entryOf taken e = entryOf given e + held')
    {tr : List ε} {s : σ} (h : M.RunIf K tr s) :
    ∃ held, Holds s held ∧ ledger taken tr = ledger given tr + held := by
  induction h with
  | nil => exact ⟨0, hinit, rfl⟩
  | @snoc tr s s' a e hrun hK hnext ih =>
      obtain ⟨held, hheld, hsum⟩ := ih
      obtain ⟨held', hheld', hbalance⟩ := hstep s a s' e held hK hnext hheld
      refine ⟨held', hheld', ?_⟩
      rw [ledger_append_toList, ledger_append_toList, hsum, add_assoc, hbalance, ← add_assoc]

end Machine

end Miez.Lib
