import Miez.Lib.Ledger
import Miez.Proofs.GenericLinkedList.Lifetime

/-!
# `Miez.Proofs.GenericLinkedList.Ledger`: who owns the data of a list or a queue

On a list with a free function, each datum that an insertion has stored is handed out through
`*out_data`, given to the free function, or still in the list. A call of the abstract list keeps
this balance (`Deque.apply_balance`), `clear` and `free` keep it because they free all elements,
and with the conservation rule it holds along every run up to the final free
(`list_ownership_ledger`).
-/

set_option autoImplicit false

namespace Miez.GenericLinkedList

open Miez.Lib

variable {α : Type}

/-! ### The entries of a call -/

/-- The data that a successful insertion has stored: the copy when there is a copy function. -/
def stored (copyFunction : Bool) : Operation α × Outcome α → Multiset α
  | (.list (.insertFirst data _ copied), o) | (.list (.insertLast data _ copied), o)
  | (.enqueue data _ copied, o) =>
      if o.code = 0 then ↑(if copyFunction then copied.2 else data).toList else 0
  | _ => 0

/-- The data that a call has handed out. -/
def handedOut (e : Operation α × Outcome α) : Multiset α := ↑e.2.outData.join.toList

/-- The data that a call has given to the free function. -/
def freedBy (e : Operation α × Outcome α) : Multiset α := ↑e.2.freed

/-- The data that is in the list. -/
def Deque.live (d : Deque α) : Multiset α := ↑(d.items.filterMap Prod.snd)

/-! ### One call -/

section
variable {d : Deque α}

/-- The data of a list with one element more. -/
theorem live_of_perm {items rest : List (Address × Option α)} {item : Address × Option α}
    (h : items.Perm (item :: rest)) :
    (↑(items.filterMap Prod.snd) : Multiset α) = ↑item.2.toList + ↑(rest.filterMap Prod.snd) := by
  rw [Multiset.coe_eq_coe.mpr (h.filterMap Prod.snd), Multiset.coe_add]
  cases hdata : item.2 <;> simp [hdata]

/-- What a removal hands out and what it frees is the datum. -/
theorem removed_balance (outData : Bool) (v : Option α) (it : Option Address) :
    ((removed outData v it).outData.join.toList : Multiset α) + ↑(removed outData v it).freed.toList
      = ↑v.toList := by
  cases outData <;> simp [removed]

/-- The balance of a call on the abstract list. -/
def Deque.Balance (d : Deque α) (stored : Multiset α) (r : Deque α × Result α) : Prop :=
  d.live + stored = ↑r.2.outData.join.toList + ↑r.2.freed.toList + r.1.live

/-- A call that stores nothing and leaves the elements as they are. -/
theorem Deque.balance_same (d : Deque α) {r : Result α} (hout : r.outData.join = none)
    (hfreed : r.freed = none) : d.Balance 0 (d, r) := by
  simp [Deque.Balance, hout, hfreed]

/-- An insertion is balanced. -/
theorem Deque.insert_balance (d : Deque α) (data : Option α) (x : Address)
    (copied : Int × Option α) {place : Address × Option α → List (Address × Option α)}
    (hplace : ∀ item, (place item).Perm (item :: d.items)) :
    d.Balance (if (d.insert data x copied place).2.code = 0 then
        ↑(d.newData data copied).toList else 0) (d.insert data x copied place) := by
  unfold Deque.insert
  by_cases hnode : x = 0
  · rw [if_pos hnode]
    exact d.balance_same rfl rfl
  · rw [if_neg hnode]
    by_cases hcopy : d.copyFunction = true ∧ copied.1 ≠ 0
    · rw [if_pos hcopy]
      have hcode : ¬ ((d, exitCode copied.1) : Deque α × Result α).2.code = 0 := hcopy.2
      rw [if_neg hcode]
      exact d.balance_same rfl rfl
    · rw [if_neg hcopy]
      show d.live + ↑(d.newData data copied).toList
        = 0 + 0 + ↑((place (x, d.newData data copied)).filterMap Prod.snd)
      rw [live_of_perm (hplace (x, d.newData data copied)), add_zero, zero_add, add_comm]
      rfl

/-- With a free function, the removal of an element is balanced. -/
theorem Deque.remove_balance (d : Deque α) (hfree : d.freeFunction = true) (outData : Bool)
    {item : Address × Option α} {rest : List (Address × Option α)}
    (hitems : d.items.Perm (item :: rest)) : d.Balance 0 (d.remove outData item rest) := by
  have hout : ¬ (outData = false ∧ d.freeFunction = false) := by
    rw [hfree]
    exact fun hout => Bool.noConfusion hout.2
  rw [Deque.remove, if_neg hout, Deque.Balance, removed_balance, add_zero]
  exact live_of_perm hitems

/-- A removal from an empty list is balanced. -/
theorem Deque.removeNone_balance (d : Deque α) (outData : Bool) :
    d.Balance 0 (d.removeNone outData) := by
  cases outData with
  | true => exact d.balance_same rfl rfl
  | false => exact d.balance_same rfl rfl

/-- With a free function, the removal at an iterator is balanced. -/
theorem Deque.iteratorRemove_balance (d : Deque α) (hfree : d.freeFunction = true) (it : Address)
    (outData : Bool) : d.Balance 0 (d.iteratorRemove it outData) := by
  have hout : ¬ (outData = false ∧ d.freeFunction = false) := by
    rw [hfree]
    exact fun hout => Bool.noConfusion hout.2
  have hsplit := List.takeWhile_append_dropWhile (p := fun item : Address × Option α =>
    decide (item.1 ≠ it)) (l := d.items)
  rw [Deque.iteratorRemove]
  cases hdrop : d.items.dropWhile fun item => item.1 ≠ it with
  | nil => exact d.balance_same rfl rfl
  | cons item post =>
      rw [hdrop] at hsplit
      have hitems : d.items.Perm
          (item :: (d.items.takeWhile (fun item => item.1 ≠ it) ++ post)) := by
        conv_lhs => rw [← hsplit]
        exact List.perm_middle
      simp only [if_neg hout]
      rw [Deque.Balance, removed_balance, add_zero]
      exact live_of_perm hitems

/-- With a free function, every function of the list is balanced. -/
theorem Deque.apply_balance (d : Deque α) (hfree : d.freeFunction = true) (call : Call α) :
    d.Balance (stored d.copyFunction (.list call, (d.apply call).2.outcome)) (d.apply call) := by
  cases call with
  | setFreeFunction set => exact d.balance_same rfl rfl
  | setCopyFunction set => exact d.balance_same rfl rfl
  | insertFirst data x copied => exact d.insert_balance data x copied fun item => List.Perm.refl _
  | insertLast data x copied =>
      exact d.insert_balance data x copied fun item => List.perm_append_singleton item d.items
  | removeFirst outData =>
      rw [Deque.apply]
      cases hitems : d.items with
      | nil => exact d.removeNone_balance outData
      | cons item rest => exact d.remove_balance hfree outData (hitems ▸ List.Perm.refl _)
  | removeLast outData =>
      rw [Deque.apply]
      cases hlast : d.items.getLast? with
      | none => exact d.removeNone_balance outData
      | some item =>
          have hitems : d.items.Perm (item :: d.items.dropLast) := by
            conv_lhs => rw [← List.dropLast_append_getLast? item hlast]
            exact List.perm_append_singleton item d.items.dropLast
          exact d.remove_balance hfree outData hitems
  | iteratorRemove it outData => exact d.iteratorRemove_balance hfree it outData

/-- The call sets the free function or the copy function. -/
def Call.isSetter : Call α → Bool
  | .setFreeFunction _ | .setCopyFunction _ => true
  | _ => false

/-- A call that sets neither function changes nothing but the elements. -/
theorem Deque.apply_items (d : Deque α) {call : Call α} (hset : call.isSetter = false) :
    (d.apply call).1 = { d with items := (d.apply call).1.items } := by
  have hinsert : ∀ (data : Option α) x copied place, (d.insert data x copied place).1
      = { d with items := (d.insert data x copied place).1.items } := by
    intro data x copied place
    unfold Deque.insert
    split_ifs <;> rfl
  have hremove : ∀ outData (item : Address × Option α) rest, (d.remove outData item rest).1
      = { d with items := (d.remove outData item rest).1.items } := by
    intro outData item rest
    unfold Deque.remove
    split_ifs <;> rfl
  cases call with
  | setFreeFunction set => cases hset
  | setCopyFunction set => cases hset
  | insertFirst data newNode copied => exact hinsert ..
  | insertLast data newNode copied => exact hinsert ..
  | removeFirst outData =>
      simp only [Deque.apply]
      split
      · rfl
      · exact hremove ..
  | removeLast outData =>
      simp only [Deque.apply]
      split
      · rfl
      · exact hremove ..
  | iteratorRemove it outData =>
      simp only [Deque.apply, Deque.iteratorRemove]
      split
      · rfl
      · split_ifs <;> rfl

end

/-! ### The runs -/

section
variable {guards : Guards} {copyFunction : Bool}

/-- What a list holds. There is nothing after the final free. -/
def Holds (copyFunction : Bool) (self : Option (GenericLinkedList α)) (held : Multiset α) : Prop :=
  match self with
  | none => held = 0
  | some list => ∃ d, Represents d list ∧ d.freeFunction = true ∧ d.copyFunction = copyFunction ∧
      held = d.live

/-- The balance of a call on a list. -/
def OutcomeBalance (copyFunction : Bool) (held : Multiset α) (operation : Operation α)
    (r : Outcome α × Option (GenericLinkedList α)) : Prop :=
  ∃ held', Holds copyFunction r.2 held' ∧
    held + stored copyFunction (operation, r.1)
      = handedOut (operation, r.1) + freedBy (operation, r.1) + held'

/-- A function of the list is balanced. -/
theorem Represents.run_balance {d : Deque α} {self : GenericLinkedList α} (h : Represents d self)
    (hfree : d.freeFunction = true) (hcopy : d.copyFunction = copyFunction) {call : Call α}
    (hset : call.isSetter = false) (hcan : self.canCall call = true) :
    ∃ r, self.run call = some r ∧
      OutcomeBalance copyFunction d.live (.list call) (r.1.outcome, some r.2) := by
  obtain ⟨list, hrun, hrep⟩ := h.simulates hcan
  have hitems := d.apply_items hset
  refine ⟨_, hrun, (d.apply call).1.live, ⟨(d.apply call).1, hrep, ?_, ?_, rfl⟩, ?_⟩
  · rw [hitems]
    exact hfree
  · rw [hitems]
    exact hcopy
  · rw [← hcopy]
    exact d.apply_balance hfree call

/-- Every call that is allowed is balanced. -/
theorem Represents.operate_balance {d : Deque α} {self : GenericLinkedList α}
    (h : Represents d self) (hfree : d.freeFunction = true) (hcopy : d.copyFunction = copyFunction)
    {operation : Operation α} (hcan : self.canOperate operation = true) :
    ∃ r, self.operate operation = some r ∧ OutcomeBalance copyFunction d.live operation r := by
  cases operation with
  | list call =>
      have hset : call.isSetter = false := by
        cases call <;> first | rfl | cases hcan
      have hcall : self.canCall call = true := by
        cases call <;> first | exact hcan | rfl
      obtain ⟨r, hrun, hbalance⟩ := h.run_balance hfree hcopy hset hcall
      exact ⟨_, by rw [operate, hrun]; rfl, hbalance⟩
  | enqueue data newNode copied =>
      have hcall : self.canCall (.insertLast data newNode copied) = true := hcan
      obtain ⟨r, hrun, hbalance⟩ := h.run_balance hfree hcopy rfl hcall
      have hqueue : GenericQueue.enqueueCopied self data newNode copied = some r := hrun
      exact ⟨_, by rw [operate, hqueue]; rfl, hbalance⟩
  | dequeue outData =>
      have hcall : self.canCall (.removeFirst outData) = true := rfl
      obtain ⟨r, hrun, hbalance⟩ := h.run_balance hfree hcopy rfl hcall
      have hqueue : GenericQueue.dequeueInto self outData = some r := hrun
      exact ⟨_, by rw [operate, hqueue]; rfl, hbalance⟩
  | clear =>
      -- with a free function, `clear` frees what is in the queue
      have hself : self.freeFunction = true := by rw [h.freeFunction, hfree]
      rcases h.clear_spec with ⟨queue, hclear, hrep, -⟩ | ⟨-, hnone, -⟩
      · refine ⟨(⟨0, none, d.items.filterMap Prod.snd, none⟩, some queue), ?_, 0,
          ⟨_, hrep, hfree, hcopy, rfl⟩, ?_⟩
        · rw [operate, hclear]
          rfl
        show d.live + 0 = 0 + d.live + 0
        rw [zero_add]
      · rw [hself] at hnone
        cases hnone
  | free =>
      have hself : self.freeFunction = true := by rw [h.freeFunction, hfree]
      obtain ⟨heap, hspec, -⟩ := h.free_spec
      rw [hself] at hspec
      refine ⟨(⟨0, none, d.items.filterMap Prod.snd, none⟩, none), ?_, 0, rfl, ?_⟩
      · rw [operate, hspec]
        rfl
      show d.live + 0 = 0 + d.live + 0
      rw [zero_add]

/-- A new list holds nothing. -/
theorem holds_init : Holds copyFunction (lifetime α guards copyFunction).init 0 := by
  have hnew := represents_new (α := α) guards
  refine ⟨{ Deque.new guards with freeFunction := true, copyFunction := copyFunction },
    ?_, rfl, rfl, rfl⟩
  exact ⟨hnew.headGuard, hnew.tailGuard, rfl, rfl, hnew.linked, hnew.nodup, hnew.data,
    hnew.domain, hnew.null, hnew.size⟩

/-- Every step of a list is balanced. -/
theorem lifetime_balance {s s' : Option (GenericLinkedList α)} {operation : Operation α}
    {e : Option (Operation α × Outcome α)} {held : Multiset α}
    (hnext : (lifetime α guards copyFunction).next s operation = some (s', e))
    (hheld : Holds copyFunction s held) :
    ∃ held', Holds copyFunction s' held' ∧ held + entryOf (stored copyFunction) e
      = entryOf (fun e => handedOut e + freedBy e) e + held' := by
  cases s with
  | none => cases hnext
  | some list =>
      obtain ⟨d, hrep, hfree, hcopy, rfl⟩ := hheld
      by_cases hcan : list.canOperate operation = true
      · obtain ⟨r, hr, held', hheld', hbalance⟩ := hrep.operate_balance hfree hcopy hcan
        have hstep : (lifetime α guards copyFunction).next (some list) operation
            = some (r.2, some (operation, r.1)) := by
          show (if list.canOperate operation = true then _ else _) = _
          rw [if_pos hcan, hr]
          rfl
        rw [hstep] at hnext
        cases hnext
        exact ⟨held', hheld', hbalance⟩
      · have hstep : (lifetime α guards copyFunction).next (some list) operation = none :=
          if_neg hcan
        rw [hstep] at hnext
        cases hnext

/-- Who owns the data. Along every run of a list or a queue with a free function, the data stored
by successful insertions is the data handed out, the data given to the free function, and the data
that is in the list, each as often as it was stored. After the final free nothing is left. Every
call that is allowed returns, the final free among them. -/
theorem list_ownership_ledger {tr : List (Operation α × Outcome α)}
    {self : Option (GenericLinkedList α)} (h : (lifetime α guards copyFunction).Run tr self) :
    (self = none →
      ledger (stored copyFunction) tr = ledger handedOut tr + ledger freedBy tr) ∧
    ∀ list, self = some list →
      (∃ d, Represents d list ∧
        ledger (stored copyFunction) tr = ledger handedOut tr + ledger freedBy tr + d.live) ∧
      ∀ operation, list.canOperate operation = true →
        ((lifetime α guards copyFunction).next self operation).isSome = true := by
  obtain ⟨held, hholds, hsum⟩ := h.conserved holds_init
    (fun _ _ _ _ _ _ hnext hheld => lifetime_balance hnext hheld)
  rw [ledger_add] at hsum
  constructor
  · rintro rfl
    obtain rfl : held = 0 := hholds
    rw [hsum, add_zero]
  · rintro list rfl
    obtain ⟨d, hrep, hfree, hcopy, rfl⟩ := hholds
    refine ⟨⟨d, hrep, hsum⟩, ?_⟩
    intro operation hcan
    show (if list.canOperate operation = true then _ else _ : Option _).isSome = true
    rw [if_pos hcan, Option.isSome_map]
    exact hrep.operate_isSome hcan

end

/-- A queue with a copy function: a copy that fails, three data, one of which is handed out and
one freed, and the rest is freed at the end. -/
def mixedOwnership : List (Operation Nat) :=
  [.enqueue (some 1) 10 (5, none), .enqueue (some 1) 10 (0, some 7),
   .list (.insertFirst (some 2) 11 (0, some 8)), .enqueue (some 3) 12 (0, some 9),
   .enqueue none 13 (0, none), .dequeue true, .list (.iteratorRemove 10 false), .free]

/-- 7, 8 and 9 are stored, 8 is handed out, and 7 and 9 are freed. -/
theorem list_ownership_ledger_mixedOwnership :
    ∃ tr, (lifetime Nat someGuards true).Run tr none ∧
      ledger (stored true) tr = {7, 8, 9} ∧ ledger handedOut tr = {8} ∧
      ledger handedOut tr + ledger freedBy tr = {7, 8, 9} := by
  obtain ⟨tr, s, hrun, hp⟩ := Machine.run_of_exec (M := lifetime Nat someGuards true)
    mixedOwnership
    (fun tr s => decide (s.isNone = true ∧ ledger (stored true) tr = {7, 8, 9} ∧
      ledger handedOut tr = {8})) (by decide +kernel)
  obtain ⟨hnone, hstored, hhanded⟩ := of_decide_eq_true hp
  obtain rfl := Option.isNone_iff_eq_none.mp hnone
  refine ⟨tr, hrun, hstored, hhanded, ?_⟩
  rw [← (list_ownership_ledger hrun).1 rfl, hstored]

end Miez.GenericLinkedList
