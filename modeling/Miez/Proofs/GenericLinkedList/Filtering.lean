import Miez.Proofs.GenericLinkedList.Navigation

/-!
# `Miez.Proofs.GenericLinkedList.Filtering`: removing while iterating

The loop that removes elements during a traversal has a list of three parts before each round: the
elements it has kept, the element at which the iterator stands, and the elements it has not come to.
`removeOrNext_removes` and `removeOrNext_keeps` are one round, and the loop is an induction on the
part that is left.
-/

set_option autoImplicit false

namespace Miez.GenericLinkedList

open Miez.Lib

variable {α : Type}

section
variable {q : Deque α} {self : GenericLinkedList α} {kept rest : List (Address × Option α)}
  {x : Address} {v : Option α}

/-- A removal at the element `x` frees its data and goes to the next node. -/
theorem Represents.removeOrNext_removes (h : Represents q self)
    (hitems : q.items = kept ++ (x, v) :: rest) (hfree : self.freeFunction = true) :
    ∃ list, self.removeOrNext x true = some (v, (rest.map Prod.fst).headD q.tailGuard, list) ∧
      Represents { q with items := kept ++ rest } list := by
  obtain ⟨-, -, hguard⟩ := GenericQueue.cell_of_represents h hitems
  have hout : ¬ (false = false ∧ self.freeFunction = false) := by
    rw [hfree]
    exact fun hout => Bool.noConfusion hout.2
  obtain ⟨list, hremove, hrep⟩ := h.iteratorRemove_ok hitems hguard hout
  refine ⟨list, ?_, hrep⟩
  rw [removeOrNext, if_pos rfl, hremove]
  rfl

/-- At an element that is kept, the iterator goes to the next node. -/
theorem Represents.removeOrNext_keeps (h : Represents q self)
    (hitems : q.items = kept ++ (x, v) :: rest) :
    self.removeOrNext x false = some (none, (rest.map Prod.fst).headD q.tailGuard, self) := by
  obtain ⟨⟨a, hx⟩, -, hguard⟩ := GenericQueue.cell_of_represents h hitems
  have htail : x ≠ self.tailGuard := by
    rintro rfl
    simp [atGuard] at hguard
  rw [removeOrNext, if_neg Bool.false_ne_true, iteratorNext, if_neg htail, Heap.next_eq hx,
    h.tailGuard]
  rfl

/-- The loop from the first of the elements that are left. -/
theorem Represents.removeLoop_eq (h : Represents q self) (hfree : self.freeFunction = true)
    (P : Option α → Bool) (hitems : q.items = kept ++ rest) {rounds : Nat}
    (hrounds : rest.length < rounds) :
    ∃ list, removeLoop P rounds self ((rest.map Prod.fst).headD q.tailGuard) =
        some ⟨rest, (rest.filter fun item => P item.2).filterMap Prod.snd, q.tailGuard, list⟩ ∧
      Represents { q with items := kept ++ rest.filter fun item => !P item.2 } list := by
  induction rest generalizing q self kept rounds with
  | nil =>
      obtain ⟨rounds, rfl⟩ : ∃ m, rounds = m + 1 := ⟨rounds - 1, by omega⟩
      refine ⟨self, ?_, ?_⟩
      · have hend : ¬ self.iteratorIsEnd q.tailGuard ≠ 0 := by
          rw [iteratorIsEnd, if_pos h.tailGuard.symm]
          exact not_not_intro rfl
        exact if_neg hend
      · rw [List.filter_nil, ← hitems]
        exact h
  | cons item rest ih =>
      obtain ⟨x, v⟩ := item
      rw [List.length_cons] at hrounds
      obtain ⟨rounds, rfl⟩ : ∃ m, rounds = m + 1 := ⟨rounds - 1, by omega⟩
      obtain ⟨-, -, hguard⟩ := GenericQueue.cell_of_represents h hitems
      have hend : self.iteratorIsEnd x ≠ 0 := by
        rw [iteratorIsEnd, if_neg]
        · exact one_ne_zero
        · rintro rfl
          simp [atGuard] at hguard
      have hget := GenericQueue.iteratorGet_spec h hitems
      show ∃ list, removeLoop P (rounds + 1) self x = _ ∧ _
      rw [removeLoop, if_pos hend, hget]
      cases hP : P v with
      | true =>
          -- the element is gone, and the iterator is at the first of the rest
          obtain ⟨list, hstep, hrep⟩ := h.removeOrNext_removes hitems hfree
          have hfree' : list.freeFunction = true := by
            rw [hrep.freeFunction, ← hfree, h.freeFunction]
          obtain ⟨list', hloop, hrep'⟩ := ih hrep hfree' rfl (by omega : rest.length < rounds)
          refine ⟨list', ?_, ?_⟩
          · simp only [Option.bind_eq_bind, Option.bind_some, hP, hstep]
            rw [hloop, List.filter_cons_of_pos (by rw [hP])]
            cases v <;> rfl
          · rw [List.filter_cons_of_neg (by rw [hP]; simp)]
            exact hrep'
      | false =>
          have hstep := h.removeOrNext_keeps hitems
          have hitems' : q.items = (kept ++ [(x, v)]) ++ rest := by
            rw [hitems, List.append_assoc]
            rfl
          obtain ⟨list', hloop, hrep'⟩ := ih h hfree hitems' (by omega : rest.length < rounds)
          refine ⟨list', ?_, ?_⟩
          · simp only [Option.bind_eq_bind, Option.bind_some, hP, hstep]
            rw [hloop, List.filter_cons_of_neg (by rw [hP]; exact Bool.false_ne_true)]
            rfl
          · rw [List.filter_cons_of_pos (by rw [hP]; rfl)]
            rw [List.append_assoc] at hrep'
            exact hrep'

/-- Removing while iterating is filtering. With a free function, the loop comes to the tail guard
and has looked at every element once and in order. The list has the elements that do not satisfy
`P`, `_size` is their number, and both chains lead through them. The data that is not NULL of the
others has been given to the free function, once each and in list order, and nothing else. -/
theorem remove_while_iterating (h : Represents q self) (hfree : self.freeFunction = true)
    (P : Option α → Bool) {rounds : Nat} (hrounds : self.size.toNat < rounds) :
    ∃ list, self.iteratorBegin.bind (removeLoop P rounds self) =
        some ⟨q.items, (q.items.filter fun item => P item.2).filterMap Prod.snd, self.tailGuard,
          list⟩ ∧
      Represents { q with items := q.items.filter fun item => !P item.2 } list ∧
      list.size.toNat = (q.items.filter fun item => !P item.2).length := by
  rw [h.size] at hrounds
  obtain ⟨list, hloop, hrep⟩ := h.removeLoop_eq hfree P (List.nil_append q.items).symm hrounds
  refine ⟨list, ?_, hrep, hrep.size⟩
  have hbegin : self.iteratorBegin = some ((q.items.map Prod.fst).headD q.tailGuard) := by
    rw [← h.tailGuard]
    exact GenericQueue.next_headGuard h
  rw [hbegin, Option.bind_some, hloop, h.tailGuard]

end

/-- A list of 4, 5, NULL and 6 with a free function. -/
def fourElements : List (Call Nat) :=
  [.setFreeFunction true, .insertLast (some 4) 10 (0, none), .insertLast (some 5) 11 (0, none),
   .insertLast none 12 (0, none), .insertLast (some 6) 13 (0, none)]

/-- The removal of NULL and of the even numbers leaves 5, frees 4 and 6, and looks at all four. -/
theorem remove_while_iterating_even :
    ∃ tr self list, (machine Nat someGuards).Run tr self ∧
      self.iteratorBegin.bind (removeLoop (fun d => d.all (· % 2 = 0)) 5 self) =
        some ⟨[(10, some 4), (11, some 5), (12, none), (13, some 6)], [4, 6], 2, list⟩ ∧
      list.size.toNat = 1 := by
  obtain ⟨tr, self, hrun, hp⟩ := Machine.run_of_exec (M := machine Nat someGuards) fourElements
    (fun tr self => decide ((Deque.ofRun someGuards tr).items =
        [(10, some 4), (11, some 5), (12, none), (13, some 6)] ∧ self.freeFunction = true ∧
        self.tailGuard = 2 ∧ self.size.toNat = 4)) (by decide +kernel)
  obtain ⟨hitems, hfree, htail, hsize⟩ := of_decide_eq_true hp
  obtain ⟨list, hloop, -, hlist⟩ := remove_while_iterating (represents_of_run hrun).1 hfree
    (fun d => d.all (· % 2 = 0)) (by omega : self.size.toNat < 5)
  rw [hitems, htail] at hloop
  rw [hitems] at hlist
  exact ⟨tr, self, list, hrun, hloop, hlist⟩

end Miez.GenericLinkedList
