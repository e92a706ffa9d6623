import Miez.GenericLinkedList.Lifetime
import Miez.Proofs.GenericQueue

/-!
# `Miez.Proofs.GenericLinkedList.Lifetime`: clear, free and failed calls

`generic_queue_clear` removes the first element again and again. With a free function no removal
fails, and without one the first removal fails already, so a call of `clear` empties the queue or
leaves it as it was (`clear_spec`). `free_spec` is the same for `generic_linked_list_free`, which
leaves no node behind. A call that returns another code than 0 has changed nothing
(`failed_call_leaves_no_trace`).
-/

set_option autoImplicit false

namespace Miez.GenericLinkedList

open Miez.Lib
open Miez.GenericQueue (clear clearLoop isEmpty isEmpty_of_represents cell_of_represents
  next_headGuard)

variable {α : Type}

section
variable {d : Deque α} {self : GenericLinkedList α}

/-! ### `generic_queue_clear` -/

/-- With a free function, the loop of `clear` frees the data of all elements in order. -/
theorem Represents.clearLoop_frees (h : Represents d self) (hfree : self.freeFunction = true)
    {rounds : Nat} (hrounds : d.items.length < rounds) :
    ∃ queue, clearLoop rounds self = some (0, d.items.filterMap Prod.snd, queue) ∧
      Represents { d with items := [] } queue := by
  induction rounds generalizing d self with
  | zero => exact absurd hrounds (Nat.not_lt_zero _)
  | succ rounds ih =>
      rw [clearLoop, isEmpty_of_represents h]
      cases hitems : d.items with
      | nil =>
          refine ⟨self, ?_, ?_⟩
          · rw [if_pos rfl, if_neg one_ne_zero]
            rfl
          · rw [← hitems]
            exact h
      | cons item rest =>
          have hout : ¬ (false = false ∧ self.freeFunction = false) := by
            rw [hfree]
            exact fun hout => Bool.noConfusion hout.2
          obtain ⟨queue, hremove, hrep⟩ := h.removeFirst_ok hitems hout
          have hfree' : queue.freeFunction = true := by
            rw [hrep.freeFunction, ← hfree, h.freeFunction]
          rw [hitems, List.length_cons] at hrounds
          obtain ⟨queue', hloop, hrep'⟩ := ih hrep hfree' (by
            show rest.length < rounds
            omega)
          refine ⟨queue', ?_, hrep'⟩
          rw [if_neg (List.cons_ne_nil _ _), if_pos rfl, hremove]
          simp only [removed, Option.bind_eq_bind, Option.bind_some, Bool.false_eq_true, if_false,
            ne_eq, not_true_eq_false, hloop]
          cases hdata : item.2 <;> simp [hdata]

/-- `clear` empties the queue, or it returns 1 and has changed nothing. The latter is so when there
are elements and no free function. -/
theorem Represents.clear_spec (h : Represents d self) :
    (∃ queue, clear self = some (0, d.items.filterMap Prod.snd, queue) ∧
      Represents { d with items := [] } queue ∧ (self.freeFunction = true ∨ d.items = [])) ∨
    (clear self = some (1, [], self) ∧ self.freeFunction = false ∧ d.items ≠ []) := by
  rw [clear, h.size]
  cases hfree : self.freeFunction with
  | true =>
      obtain ⟨queue, hloop, hrep⟩ := h.clearLoop_frees hfree (Nat.lt_succ_self d.items.length)
      exact Or.inl ⟨queue, hloop, hrep, Or.inl rfl⟩
  | false =>
      rw [clearLoop, isEmpty_of_represents h]
      cases hitems : d.items with
      | nil =>
          left
          refine ⟨self, ?_, ?_, Or.inr rfl⟩
          · rw [if_pos rfl, if_neg one_ne_zero]
            rfl
          · rw [← hitems]
            exact h
      | cons item rest =>
          -- the first removal is refused
          right
          have hsize := h.size_ne_zero (by rw [hitems]; exact List.cons_ne_nil _ _)
          refine ⟨?_, rfl, List.cons_ne_nil _ _⟩
          rw [if_neg (List.cons_ne_nil _ _), if_pos rfl, removeFirst, if_neg hsize,
            if_pos ⟨rfl, hfree⟩]
          rfl

/-! ### `generic_linked_list_free` -/

/-- The loop of `free` from the first of the elements that are left. The nodes of these elements
are still there, and they are gone afterwards. -/
theorem Represents.freeLoop_eq (h : Represents d self) {pre rest : List (Address × Option α)}
    (hitems : d.items = pre ++ rest) {heap : Heap Address (Option α)}
    (hheap : ∀ item ∈ rest, heap item.1 = self.heap item.1) {rounds : Nat}
    (hrounds : rest.length < rounds) :
    ∃ heap', freeLoop self.freeFunction self.tailGuard rounds heap
          ((rest.map Prod.fst).headD self.tailGuard)
        = some (if self.freeFunction then rest.filterMap Prod.snd else [], heap') ∧
      ∀ a, heap' a = if a ∈ rest.map Prod.fst then none else heap a := by
  induction rest generalizing pre heap rounds with
  | nil =>
      obtain ⟨rounds, rfl⟩ : ∃ m, rounds = m + 1 := ⟨rounds - 1, by omega⟩
      refine ⟨heap, ?_, fun a => by simp⟩
      have hend : ¬ ((([] : List (Address × Option α)).map Prod.fst).headD self.tailGuard
          ≠ self.tailGuard) := fun hne => hne rfl
      rw [freeLoop, if_neg hend]
      cases self.freeFunction <;> rfl
  | cons item rest ih =>
      obtain ⟨x, v⟩ := item
      rw [List.length_cons] at hrounds
      obtain ⟨rounds, rfl⟩ : ∃ m, rounds = m + 1 := ⟨rounds - 1, by omega⟩
      obtain ⟨⟨a, hx⟩, -, hguard⟩ := cell_of_represents h hitems
      have htail : x ≠ self.tailGuard := by
        rintro rfl
        simp [atGuard] at hguard
      have hcell : heap x = some ⟨v, (rest.map Prod.fst).headD self.tailGuard, a⟩ := by
        rw [← hx]
        exact hheap (x, v) (List.mem_cons_self ..)
      have hitems' : d.items = (pre ++ [(x, v)]) ++ rest := by
        rw [hitems, List.append_assoc]
        rfl
      -- the elements have different nodes, so the freed one is none of the rest
      have hnot : x ∉ rest.map Prod.fst := by
        have hnodup := (List.nodup_cons.mp h.nodup).2
        rw [Deque.names, hitems, List.map_append, List.map_cons, List.append_assoc,
          List.cons_append] at hnodup
        have hrest := (List.nodup_cons.mp (List.nodup_append.mp hnodup).2.1).1
        exact fun hmem => hrest (List.mem_append_left _ hmem)
      have hheap' : ∀ item ∈ rest, (heap.free x) item.1 = self.heap item.1 := by
        intro item hitem
        have hne : item.1 ≠ x := fun heq => hnot (heq ▸ List.mem_map_of_mem hitem)
        rw [Heap.free, Function.update_of_ne hne]
        exact hheap item (List.mem_cons_of_mem _ hitem)
      obtain ⟨heap', hloop, hfreed⟩ := ih hitems' hheap' (by omega : rest.length < rounds)
      refine ⟨heap', ?_, ?_⟩
      · show freeLoop self.freeFunction self.tailGuard (rounds + 1) heap x = _
        rw [freeLoop, if_pos htail, Heap.next_eq hcell, hcell]
        simp only [Option.map_some, Option.bind_eq_bind, Option.bind_some, hloop]
        cases self.freeFunction <;> cases v <;> rfl
      · intro b
        rw [hfreed b, List.map_cons, Heap.free]
        by_cases hbx : b = x
        · have hmem : b ∈ x :: rest.map Prod.fst := hbx ▸ List.mem_cons_self ..
          rw [if_pos hmem, hbx, Function.update_self, ite_self]
        · have hmem : b ∈ x :: rest.map Prod.fst ↔ b ∈ rest.map Prod.fst := by simp [hbx]
          rw [Function.update_of_ne hbx]
          exact (if_congr hmem rfl rfl).symm

/-- `free` gives the data of all elements to the free function in order, when there is one, and
gives every node back. -/
theorem Represents.free_spec (h : Represents d self) :
    ∃ heap, self.free =
        some (if self.freeFunction then d.items.filterMap Prod.snd else [], heap) ∧
      ∀ a, heap a = none := by
  have hguards : self.headGuard ≠ 0 ∧ self.tailGuard ≠ 0 := by
    constructor
    · intro h0
      have hhead := (h.domain self.headGuard).mpr (h.headGuard ▸ List.mem_cons_self ..)
      rw [h0, h.null] at hhead
      cases hhead
    · intro h0
      have htail := (h.domain self.tailGuard).mpr (h.tailGuard ▸
        List.mem_cons_of_mem _ (List.mem_append_right _ (List.mem_singleton_self _)))
      rw [h0, h.null] at htail
      cases htail
  obtain ⟨heap, hloop, hheap⟩ := h.freeLoop_eq (List.nil_append d.items).symm (fun _ _ => rfl)
    (Nat.lt_succ_self d.items.length)
  refine ⟨(heap.free self.headGuard).free self.tailGuard, ?_, ?_⟩
  · rw [free, if_pos hguards, next_headGuard h, h.size]
    show (freeLoop self.freeFunction self.tailGuard (d.items.length + 1) self.heap
      ((d.items.map Prod.fst).headD self.tailGuard)).bind _ = _
    rw [hloop]
    rfl
  · intro a
    rw [Heap.free, Heap.free]
    by_cases htail : a = self.tailGuard
    · rw [htail, Function.update_self]
    · rw [Function.update_of_ne htail]
      by_cases hhead : a = self.headGuard
      · rw [hhead, Function.update_self]
      · rw [Function.update_of_ne hhead, hheap a]
        by_cases hname : a ∈ d.items.map Prod.fst
        · rw [if_pos hname]
        · -- a node is a guard or the node of an element
          rw [if_neg hname, ← Option.not_isSome_iff_eq_none, h.domain a]
          rw [h.headGuard] at hhead
          rw [h.tailGuard] at htail
          simp only [List.mem_cons, List.mem_append, List.mem_nil_iff, or_false, not_or]
          exact ⟨hhead, hname, htail⟩

/-! ### Failed calls -/

/-- A call with another code than 0 gives the list back, has freed nothing, and tells that the
iterator is at `it`. -/
def FailsUnchanged (self : GenericLinkedList α) (it : Option Address)
    (call : Option (Result α × GenericLinkedList α)) : Prop :=
  ∀ r list, call = some (r, list) → r.code ≠ 0 →
    list = self ∧ r.freed = none ∧ r.outData = none ∧ r.iterator = it

/-- An early return. -/
theorem failsUnchanged_early {it : Option Address} (code : Int) :
    FailsUnchanged self it (some (⟨code, none, none, it⟩, self)) := by
  intro r list hcall _
  obtain ⟨rfl, rfl⟩ := Prod.mk.inj (Option.some.inj hcall)
  exact ⟨rfl, rfl, rfl, rfl⟩

/-- A call that returns 0 whenever it returns. -/
theorem failsUnchanged_of_zero {it : Option Address}
    {call : Option (Result α × GenericLinkedList α)}
    (hcall : ∀ r list, call = some (r, list) → r.code = 0) : FailsUnchanged self it call :=
  fun r list hr hcode => absurd (hcall r list hr) hcode

/-- The code of a removal that has been done. -/
theorem removed_code (outData : Bool) (v : Option α) (it : Option Address) :
    (removed outData v it).code = 0 := by
  unfold removed
  split <;> rfl

/-- `insert_first` fails only before it writes. -/
theorem insertFirst_fails (self : GenericLinkedList α) (data : Option α) (newNode : Address)
    (copied : Int × Option α) :
    FailsUnchanged self none (self.insertFirst data newNode copied) := by
  unfold insertFirst
  split_ifs with hnode hcopy
  · exact failsUnchanged_early (-1)
  · exact failsUnchanged_early copied.1
  · refine failsUnchanged_of_zero fun r list hr => ?_
    simp only [Option.bind_eq_bind, Option.bind_eq_some_iff, Option.some.injEq,
      Prod.mk.injEq] at hr
    obtain ⟨_, -, _, -, _, -, _, -, _, -, _, -, rfl, -⟩ := hr
    rfl

/-- `insert_last` fails only before it writes. -/
theorem insertLast_fails (self : GenericLinkedList α) (data : Option α) (newNode : Address)
    (copied : Int × Option α) :
    FailsUnchanged self none (self.insertLast data newNode copied) := by
  unfold insertLast
  split_ifs with hnode hcopy
  · exact failsUnchanged_early (-1)
  · exact failsUnchanged_early copied.1
  · refine failsUnchanged_of_zero fun r list hr => ?_
    simp only [Option.bind_eq_bind, Option.bind_eq_some_iff, Option.some.injEq,
      Prod.mk.injEq] at hr
    obtain ⟨_, -, _, -, _, -, _, -, _, -, _, -, rfl, -⟩ := hr
    rfl

/-- `remove_first` fails only before it writes. -/
theorem removeFirst_fails (self : GenericLinkedList α) (outData : Bool) :
    FailsUnchanged self none (self.removeFirst outData) := by
  unfold removeFirst
  split_ifs with hempty hout hrefused
  · exact failsUnchanged_of_zero fun r list hr => (by cases hr; rfl)
  · exact failsUnchanged_of_zero fun r list hr => (by cases hr; rfl)
  · exact failsUnchanged_early 1
  · refine failsUnchanged_of_zero fun r list hr => ?_
    simp only [Option.bind_eq_bind, Option.bind_eq_some_iff, Option.some.injEq,
      Prod.mk.injEq] at hr
    obtain ⟨_, -, v, -, _, -, _, -, _, -, _, -, rfl, -⟩ := hr
    exact removed_code outData v none

/-- `remove_last` fails only before it writes. -/
theorem removeLast_fails (self : GenericLinkedList α) (outData : Bool) :
    FailsUnchanged self none (self.removeLast outData) := by
  unfold removeLast
  split_ifs with hempty hout hrefused
  · exact failsUnchanged_of_zero fun r list hr => (by cases hr; rfl)
  · exact failsUnchanged_of_zero fun r list hr => (by cases hr; rfl)
  · exact failsUnchanged_early 1
  · refine failsUnchanged_of_zero fun r list hr => ?_
    simp only [Option.bind_eq_bind, Option.bind_eq_some_iff, Option.some.injEq,
      Prod.mk.injEq] at hr
    obtain ⟨_, -, v, -, _, -, _, -, _, -, _, -, rfl, -⟩ := hr
    exact removed_code outData v none

/-- `iterator_remove` fails only before it writes, and the iterator stays. -/
theorem iteratorRemove_fails (self : GenericLinkedList α) (it : Address) (outData : Bool) :
    FailsUnchanged self (some it) (self.iteratorRemove it outData) := by
  unfold iteratorRemove
  split_ifs with hguard hrefused
  · exact failsUnchanged_early 1
  · exact failsUnchanged_early 1
  · refine failsUnchanged_of_zero fun r list hr => ?_
    simp only [Option.bind_eq_bind, Option.bind_eq_some_iff, Option.some.injEq,
      Prod.mk.injEq] at hr
    obtain ⟨next, -, v, -, _, -, _, -, _, -, _, -, _, -, _, -, rfl, -⟩ := hr
    exact removed_code outData v (some next)

/-- The node of the iterator before a call, which only `iterator_remove` has. -/
def iteratorOf : Operation α → Option Address
  | .list (.iteratorRemove it _) => some it
  | _ => none

/-- A function of the list fails only before it writes. -/
theorem run_fails (self : GenericLinkedList α) (call : Call α) :
    FailsUnchanged self (iteratorOf (.list call)) (self.run call) := by
  cases call with
  | setFreeFunction set => exact failsUnchanged_of_zero fun r list hr => (by cases hr; rfl)
  | setCopyFunction set => exact failsUnchanged_of_zero fun r list hr => (by cases hr; rfl)
  | insertFirst data newNode copied => exact self.insertFirst_fails data newNode copied
  | insertLast data newNode copied => exact self.insertLast_fails data newNode copied
  | removeFirst outData => exact self.removeFirst_fails outData
  | removeLast outData => exact self.removeLast_fails outData
  | iteratorRemove it outData => exact self.iteratorRemove_fails it outData

/-- A failed function of the list, as an outcome of `operate`. -/
theorem FailsUnchanged.operate {it : Option Address}
    {call : Option (Result α × GenericLinkedList α)} (h : FailsUnchanged self it call)
    {o : Outcome α} {list : Option (GenericLinkedList α)}
    (ho : call.map (fun r => (r.1.outcome, some r.2)) = some (o, list)) (hcode : o.code ≠ 0) :
    list = some self ∧ o.freed = [] ∧ o.outData = none ∧ o.iterator = it := by
  obtain ⟨⟨r, self'⟩, hcall, heq⟩ := Option.map_eq_some_iff.mp ho
  obtain ⟨rfl, rfl⟩ := Prod.mk.inj heq
  obtain ⟨rfl, hfreed, hout, hit⟩ := h r self' hcall hcode
  exact ⟨rfl, congrArg Option.toList hfreed, hout, hit⟩

/-- A call on a list, other than the final free, that returns another code than 0 has changed
nothing. -/
theorem Represents.operate_fails (h : Represents d self) {operation : Operation α}
    (hfree : operation ≠ .free) {o : Outcome α} {list : Option (GenericLinkedList α)}
    (ho : self.operate operation = some (o, list)) (hcode : o.code ≠ 0) :
    list = some self ∧ o.freed = [] ∧ o.outData = none ∧ o.iterator = iteratorOf operation := by
  cases operation with
  | list call => exact (self.run_fails call).operate ho hcode
  | enqueue data newNode copied =>
      exact (self.insertLast_fails data newNode copied).operate ho hcode
  | dequeue outData => exact (self.removeFirst_fails outData).operate ho hcode
  | free => exact absurd rfl hfree
  | clear =>
      rw [operate] at ho
      rcases h.clear_spec with ⟨queue, hclear, -⟩ | ⟨hclear, -⟩
      · rw [hclear] at ho
        cases ho
        exact absurd rfl hcode
      · rw [hclear] at ho
        cases ho
        exact ⟨rfl, rfl, rfl, rfl⟩

/-- A call that is allowed on a list has a result. -/
theorem Represents.operate_isSome (h : Represents d self) {operation : Operation α}
    (hcan : self.canOperate operation = true) : (self.operate operation).isSome = true := by
  cases operation with
  | list call =>
      have hcall : self.canCall call = true := by
        cases call <;> first | exact hcan | rfl
      obtain ⟨list, hrun, -⟩ := h.simulates hcall
      rw [operate, hrun]
      rfl
  | enqueue data newNode copied =>
      obtain ⟨list, hrun, -⟩ : Simulates d self (.insertLast data newNode copied) :=
        h.simulates hcan
      have hqueue : GenericQueue.enqueueCopied self data newNode copied = _ := hrun
      rw [operate, hqueue]
      rfl
  | dequeue outData =>
      obtain ⟨list, hrun, -⟩ : Simulates d self (.removeFirst outData) := h.simulates rfl
      have hqueue : GenericQueue.dequeueInto self outData = _ := hrun
      rw [operate, hqueue]
      rfl
  | clear =>
      rw [operate]
      rcases h.clear_spec with ⟨queue, hclear, -⟩ | ⟨hclear, -⟩ <;> rw [hclear] <;> rfl
  | free =>
      obtain ⟨heap, hfree, -⟩ := h.free_spec
      rw [operate, hfree]
      rfl

end

/-- A failed call leaves no trace. A call on a list or a queue, or on NULL, that returns another
code than 0 leaves the pointers, the data, `_size` and the callbacks as they were, it has not
called the free function and has not written `*out_data`, and the iterator stands where it stood.
Every call on a list returns, and `clear` empties the queue, and has freed its data, or it changes
nothing. -/
theorem failed_call_leaves_no_trace {self : Option (GenericLinkedList α)}
    (hself : ∀ list ∈ self, ∃ d, Represents d list) :
    (∀ operation o list, operation ≠ .free → operateAt self operation = some (o, list) →
      o.code ≠ 0 → list = self ∧ o.freed = [] ∧ o.outData = none ∧
        o.iterator = self.bind fun _ => iteratorOf operation) ∧
    ∀ list ∈ self,
      (∀ operation, list.canOperate operation = true →
        (operateAt self operation).isSome = true) ∧
      ∃ o queue, operateAt self .clear = some (o, some queue) ∧
        (o.code = 0 ∧ queue.size = 0 ∧
            (∀ d, Represents d list → Represents { d with items := [] } queue ∧
              o.freed = d.items.filterMap Prod.snd) ∨
          o.code ≠ 0 ∧ queue = list) := by
  constructor
  · intro operation o list hfree ho hcode
    cases self with
    | none =>
        cases ho
        exact ⟨rfl, rfl, rfl, rfl⟩
    | some self =>
        obtain ⟨d, hd⟩ := hself self rfl
        exact hd.operate_fails hfree ho hcode
  · intro list hlist
    obtain ⟨d, hd⟩ := hself list hlist
    rw [Option.mem_def.mp hlist]
    refine ⟨fun operation hcan => hd.operate_isSome hcan, ?_⟩
    rcases hd.clear_spec with ⟨queue, hclear, hrep, -⟩ | ⟨hclear, -⟩
    · refine ⟨⟨0, none, d.items.filterMap Prod.snd, none⟩, queue, ?_, Or.inl ⟨rfl, ?_, ?_⟩⟩
      · rw [operateAt, operate, hclear]
        rfl
      · exact UInt64.toNat_inj.mp hrep.size
      · -- the elements of the list do not depend on the choice of `d`
        intro d' hd'
        rcases hd'.clear_spec with ⟨queue', hclear', hrep', -⟩ | ⟨hclear', -⟩
        · rw [hclear] at hclear'
          simp only [Option.some.injEq, Prod.mk.injEq, true_and] at hclear'
          rw [hclear'.2]
          exact ⟨hrep', hclear'.1⟩
        · rw [hclear] at hclear'
          cases hclear'
    · refine ⟨⟨1, none, [], none⟩, list, ?_, Or.inr ⟨one_ne_zero, rfl⟩⟩
      rw [operateAt, operate, hclear]
      rfl

/-- Two elements, and no free function. -/
def twoElements : List (Call Nat) :=
  [.insertLast (some 4) 10 (0, none), .setCopyFunction true, .insertFirst none 11 (0, some 5)]

/-- Without a free function, `clear` and the removal at an iterator are refused, and so is an
insertion whose copy fails. -/
theorem failed_call_leaves_no_trace_twoElements :
    ∃ tr self, (machine Nat someGuards).Run tr self ∧
      ((self.operate .clear).map fun r => r.1.code) = some 1 ∧
      ((self.operate (.list (.iteratorRemove 10 false))).map fun r => r.1.code) = some 1 ∧
      ((self.operate (.enqueue (some 6) 12 (7, none))).map fun r => r.1.code) = some 7 ∧
      ∀ operation o list, operation ≠ .free → operateAt (some self) operation = some (o, list) →
        o.code ≠ 0 → list = some self ∧ o.freed = [] := by
  obtain ⟨tr, self, hrun, hp⟩ := Machine.run_of_exec (M := machine Nat someGuards) twoElements
    (fun _ self =>
      decide (((self.operate .clear).map fun r => r.1.code) = some 1 ∧
        ((self.operate (.list (.iteratorRemove 10 false))).map fun r => r.1.code) = some 1 ∧
        ((self.operate (.enqueue (some 6) 12 (7, none))).map fun r => r.1.code) = some 7))
    (by decide +kernel)
  obtain ⟨hclear, hremove, henqueue⟩ := of_decide_eq_true hp
  refine ⟨tr, self, hrun, hclear, hremove, henqueue, ?_⟩
  intro operation o list hfree ho hcode
  have hself : ∀ l ∈ some self, ∃ d, Represents d l := by
    intro l hl
    cases hl
    exact ⟨_, (represents_of_run hrun).1⟩
  have hfailed := (failed_call_leaves_no_trace hself).1 operation o list hfree ho hcode
  exact ⟨hfailed.1, hfailed.2.1⟩

end Miez.GenericLinkedList
