import Miez.GenericLinkedList

/-!
# `Miez.Proofs.GenericLinkedList`: the linked list refines a deque

The abstract list is the sequence of its elements, each with the address of its node as its name.
`Deque.apply` runs a call on it. An iterator stands at an element or at a guard.

`Represents` relates the two: the guards and the names are a linked list of cells, without
duplicates, they are all the cells of the heap, each has the datum of its element, and `_size` is
the number of elements. `Represents.splice` and `Represents.unlink` are the two changes, which the
five functions come down to. `linked_list_refines_deque` is about every sequence of calls.

The elements have different addresses, so there are fewer than `2 ^ 64` of them and `_size` does
not wrap.
-/

set_option autoImplicit false

namespace Miez.GenericLinkedList

open Miez.Lib

variable {α : Type}

/-! ### The abstract list -/

/-- The elements of a list with their names, and what else a call depends on. -/
structure Deque (α : Type) where
  headGuard : Address
  tailGuard : Address
  items : List (Address × Option α)
  freeFunction : Bool
  copyFunction : Bool

namespace Deque

/-- The names of the elements. -/
def names (d : Deque α) : List Address := d.items.map Prod.fst

/-- The data of a new element. -/
def newData (d : Deque α) (data : Option α) (copied : Int × Option α) : Option α :=
  if d.copyFunction then copied.2 else data

/-- An insertion that `place` puts into the list. It fails without a node or without a copy. -/
def insert (d : Deque α) (data : Option α) (newNode : Address) (copied : Int × Option α)
    (place : Address × Option α → List (Address × Option α)) : Deque α × Result α :=
  if newNode = 0 then (d, exitCode (-1))
  else if d.copyFunction ∧ copied.1 ≠ 0 then (d, exitCode copied.1)
  else ({ d with items := place (newNode, d.newData data copied) }, exitCode 0)

/-- The removal of an element, which leaves `rest`. -/
def remove (d : Deque α) (outData : Bool) (item : Address × Option α)
    (rest : List (Address × Option α)) : Deque α × Result α :=
  if outData = false ∧ d.freeFunction = false then (d, exitCode 1)
  else ({ d with items := rest }, removed outData item.2 none)

/-- A removal from an empty list. -/
def removeNone (d : Deque α) (outData : Bool) : Deque α × Result α :=
  (d, ⟨0, if outData then some none else none, none, none⟩)

/-- The removal of the element at which an iterator stands. The iterator goes to the element
after it, or to the tail guard. -/
def iteratorRemove (d : Deque α) (it : Address) (outData : Bool) : Deque α × Result α :=
  match d.items.dropWhile fun item => item.1 ≠ it with
  | [] => (d, ⟨1, none, none, some it⟩)
  | item :: post =>
      if outData = false ∧ d.freeFunction = false then (d, ⟨1, none, none, some it⟩)
      else
        ({ d with items := (d.items.takeWhile fun item => item.1 ≠ it) ++ post },
          removed outData item.2 (some ((post.map Prod.fst).headD d.tailGuard)))

/-- A call on the abstract list. -/
def apply (d : Deque α) : Call α → Deque α × Result α
  | .setFreeFunction set => ({ d with freeFunction := set }, exitCode 0)
  | .setCopyFunction set => ({ d with copyFunction := set }, exitCode 0)
  | .insertFirst data newNode copied => d.insert data newNode copied fun item => item :: d.items
  | .insertLast data newNode copied => d.insert data newNode copied fun item => d.items ++ [item]
  | .removeFirst outData => match d.items with
      | [] => d.removeNone outData
      | item :: rest => d.remove outData item rest
  | .removeLast outData => match d.items.getLast? with
      | none => d.removeNone outData
      | some item => d.remove outData item d.items.dropLast
  | .iteratorRemove it outData => d.iteratorRemove it outData

/-- The abstract list of a new list. -/
def new (guards : Guards) : Deque α := ⟨guards.head, guards.tail, [], false, false⟩

/-- The abstract list after a run. -/
def ofRun (guards : Guards) (tr : List (Call α × Result α)) : Deque α :=
  tr.foldl (fun d e => (d.apply e.1).1) (.new guards)

end Deque

/-! ### Refinement -/

/-- The list on the heap has the elements of the abstract list. -/
structure Represents (d : Deque α) (ll : GenericLinkedList α) : Prop where
  headGuard : ll.headGuard = d.headGuard
  tailGuard : ll.tailGuard = d.tailGuard
  freeFunction : ll.freeFunction = d.freeFunction
  copyFunction : ll.copyFunction = d.copyFunction
  linked : Linked ll.heap (d.headGuard :: (d.names ++ [d.tailGuard]))
  nodup : (d.headGuard :: (d.names ++ [d.tailGuard])).Nodup
  data : ∀ item ∈ d.items, (ll.heap item.1).map Cell.data = some item.2
  domain : ∀ a, (ll.heap a).isSome ↔ a ∈ d.headGuard :: (d.names ++ [d.tailGuard])
  null : ll.heap 0 = none
  size : ll.size.toNat = d.items.length

/-- A list of different addresses has at most `2 ^ 64` members. -/
theorem length_le_of_nodup {l : List Address} (h : l.Nodup) : l.length ≤ 2 ^ 64 := by
  have hmap : (l.map UInt64.toFin).Nodup := h.map fun a b hab => UInt64.toFin_inj.mp hab
  have hcard := hmap.length_le_card
  rwa [List.length_map, Fintype.card_fin] at hcard

/-- The rest of a list without duplicates does not have the two members in the middle. -/
theorem ne_of_nodup {as bs : List Address} {a b c : Address} (h : (as ++ a :: b :: bs).Nodup)
    (hc : c ∈ as ++ bs) : c ≠ a ∧ c ≠ b := by
  have hright := (List.nodup_append.mp h).2.1
  constructor
  · rintro rfl
    rcases List.mem_append.mp hc with hc | hc
    · exact List.disjoint_of_nodup_append h hc (List.mem_cons_self ..)
    · exact (List.nodup_cons.mp hright).1 (List.mem_cons_of_mem _ hc)
  · rintro rfl
    rcases List.mem_append.mp hc with hc | hc
    · exact List.disjoint_of_nodup_append h hc (List.mem_cons_of_mem _ (List.mem_cons_self ..))
    · exact (List.nodup_cons.mp (List.nodup_cons.mp hright).2).1 hc

section
variable {d : Deque α} {self : GenericLinkedList α}

/-- The chain of the guards and the names, cut after `pre`. -/
theorem Deque.chain_split (d : Deque α) {pre post : List (Address × Option α)}
    (hitems : d.items = pre ++ post) {as bs : List Address} {a b : Address}
    (has : d.headGuard :: pre.map Prod.fst = as ++ [a])
    (hbs : post.map Prod.fst ++ [d.tailGuard] = b :: bs) :
    d.headGuard :: (d.names ++ [d.tailGuard]) = as ++ a :: b :: bs := by
  have hnames : d.names = pre.map Prod.fst ++ post.map Prod.fst := by
    rw [Deque.names, hitems, List.map_append]
  calc d.headGuard :: (d.names ++ [d.tailGuard])
      = (d.headGuard :: pre.map Prod.fst) ++ (post.map Prod.fst ++ [d.tailGuard]) := by
        rw [hnames, List.append_assoc, List.cons_append]
    _ = as ++ a :: b :: bs := by
        rw [has, hbs, List.append_assoc]
        rfl

/-- The name of an element is in the chain. -/
theorem Deque.mem_chain (d : Deque α) {item : Address × Option α} (h : item ∈ d.items) :
    item.1 ∈ d.headGuard :: (d.names ++ [d.tailGuard]) :=
  List.mem_cons_of_mem _ (List.mem_append_left _ (List.mem_map_of_mem h))

/-- A new element between `pre` and `post`, whose neighbours are `a` and `b`. -/
theorem Represents.splice (h : Represents d self) {pre post : List (Address × Option α)}
    (hitems : d.items = pre ++ post) {as bs : List Address} {a b x : Address}
    (has : d.headGuard :: pre.map Prod.fst = as ++ [a])
    (hbs : post.map Prod.fst ++ [d.tailGuard] = b :: bs) {ca cb : Cell Address (Option α)}
    {v : Option α} {heap : Heap Address (Option α)} (hca : self.heap a = some ca)
    (hcb : self.heap b = some cb) (hx : self.heap x = none) (hx0 : x ≠ 0)
    (ha' : heap a = some { ca with next := x }) (hb' : heap b = some { cb with prev := x })
    (hx' : heap x = some ⟨v, b, a⟩) (hother : ∀ c, c ≠ a → c ≠ b → c ≠ x → heap c = self.heap c) :
    Represents { d with items := pre ++ (x, v) :: post }
      { self with heap := heap, size := self.size + 1 } := by
  have hchain := d.chain_split hitems has hbs
  have hlinked := h.linked
  have hnodup := h.nodup
  have hdomain := h.domain
  rw [hchain] at hlinked hnodup
  simp only [hchain] at hdomain
  have hnew : d.headGuard :: ((pre ++ (x, v) :: post).map Prod.fst ++ [d.tailGuard])
      = as ++ a :: x :: b :: bs := by
    calc d.headGuard :: ((pre ++ (x, v) :: post).map Prod.fst ++ [d.tailGuard])
        = (d.headGuard :: pre.map Prod.fst) ++ x :: (post.map Prod.fst ++ [d.tailGuard]) := by
          simp
      _ = as ++ a :: x :: b :: bs := by
          rw [has, hbs, List.append_assoc]
          rfl
  have hxmem : x ∉ as ++ a :: b :: bs := by
    rw [← hdomain x, hx]
    exact Bool.false_ne_true
  have hnodup' : (as ++ a :: x :: b :: bs).Nodup := by
    have hperm : (as ++ a :: x :: b :: bs).Perm (x :: (as ++ a :: b :: bs)) := by
      have h₁ : as ++ a :: x :: b :: bs = (as ++ [a]) ++ x :: (b :: bs) := by simp
      have h₂ : as ++ a :: b :: bs = (as ++ [a]) ++ (b :: bs) := by simp
      rw [h₁, h₂]
      exact List.perm_middle
    exact hperm.nodup_iff.mpr (List.nodup_cons.mpr ⟨hxmem, hnodup⟩)
  have hsome : ∀ c, (heap c).isSome = true ↔ c = x ∨ (self.heap c).isSome = true := by
    intro c
    by_cases hcx : c = x
    · rw [hcx, hx']
      simp
    · by_cases hca' : c = a
      · rw [hca', ha', hca]
        simp
      · by_cases hcb' : c = b
        · rw [hcb', hb', hcb]
          simp
        · rw [hother c hca' hcb' hcx]
          simp [hcx]
  have hdata : ∀ c, c ≠ x → (heap c).map Cell.data = (self.heap c).map Cell.data := by
    intro c hcx
    by_cases hca' : c = a
    · rw [hca', ha', hca]
      rfl
    · by_cases hcb' : c = b
      · rw [hcb', hb', hcb]
        rfl
      · rw [hother c hca' hcb' hcx]
  refine ⟨h.headGuard, h.tailGuard, h.freeFunction, h.copyFunction, ?_, ?_, ?_, ?_, ?_, ?_⟩
  · show Linked heap (d.headGuard :: ((pre ++ (x, v) :: post).map Prod.fst ++ [d.tailGuard]))
    rw [hnew]
    refine hlinked.insert hca hcb ha' hb' hx' ?_
    intro c hc
    have hcmem : c ∈ as ++ a :: b :: bs := by
      rcases List.mem_append.mp hc with hc | hc
      · exact List.mem_append_left _ hc
      · exact List.mem_append_right _ (List.mem_cons_of_mem _ (List.mem_cons_of_mem _ hc))
    obtain ⟨hca', hcb'⟩ := ne_of_nodup hnodup hc
    exact hother c hca' hcb' fun hcx => hxmem (hcx ▸ hcmem)
  · show (d.headGuard :: ((pre ++ (x, v) :: post).map Prod.fst ++ [d.tailGuard])).Nodup
    rw [hnew]
    exact hnodup'
  · intro item hitem
    rcases List.mem_append.mp hitem with hmem | hmem
    · have hmem' : item ∈ d.items := hitems ▸ List.mem_append_left _ hmem
      have hne : item.1 ≠ x := fun heq => hxmem (hchain ▸ heq ▸ d.mem_chain hmem')
      rw [hdata _ hne]
      exact h.data item hmem'
    · rcases List.mem_cons.mp hmem with rfl | hmem
      · show (heap x).map Cell.data = some v
        rw [hx']
        rfl
      · have hmem' : item ∈ d.items := hitems ▸ List.mem_append_right _ hmem
        have hne : item.1 ≠ x := fun heq => hxmem (hchain ▸ heq ▸ d.mem_chain hmem')
        rw [hdata _ hne]
        exact h.data item hmem'
  · intro c
    show (heap c).isSome = true ↔
      c ∈ d.headGuard :: ((pre ++ (x, v) :: post).map Prod.fst ++ [d.tailGuard])
    rw [hnew, hsome c, hdomain c]
    simp only [List.mem_append, List.mem_cons]
    tauto
  · show heap 0 = none
    have hzero := (hsome 0).not.mpr (by rw [h.null]; simp [hx0.symm])
    simpa using hzero
  · -- The new chain has different addresses, so the counter does not wrap.
    show (self.size + 1).toNat = (pre ++ (x, v) :: post).length
    have hlen := length_le_of_nodup hnodup'
    have hold := h.size
    have hitemsLen : d.items.length = pre.length + post.length := by
      rw [hitems, List.length_append]
    have hnewLen : (as ++ a :: x :: b :: bs).length = pre.length + post.length + 3 := by
      rw [← hnew]
      simp
      omega
    rw [UInt64.toNat_add]
    show (self.size.toNat + 1) % 2 ^ 64 = _
    rw [List.length_append, List.length_cons, Nat.mod_eq_of_lt (by omega)]
    omega

/-- The element between `pre` and `post` is taken out. -/
theorem Represents.unlink (h : Represents d self) {pre post : List (Address × Option α)}
    {x : Address} {v : Option α} (hitems : d.items = pre ++ (x, v) :: post)
    {as bs : List Address} {a b : Address} (has : d.headGuard :: pre.map Prod.fst = as ++ [a])
    (hbs : post.map Prod.fst ++ [d.tailGuard] = b :: bs) {ca cb : Cell Address (Option α)}
    {heap : Heap Address (Option α)} (hca : self.heap a = some ca) (hcb : self.heap b = some cb)
    (ha' : heap a = some { ca with next := b }) (hb' : heap b = some { cb with prev := a })
    (hx' : heap x = none) (hother : ∀ c, c ≠ a → c ≠ b → c ≠ x → heap c = self.heap c) :
    Represents { d with items := pre ++ post }
      { self with heap := heap, size := self.size - 1 } := by
  have hchain : d.headGuard :: (d.names ++ [d.tailGuard]) = as ++ a :: x :: b :: bs := by
    refine d.chain_split hitems has ?_
    rw [List.map_cons, List.cons_append, hbs]
  have hlinked := h.linked
  have hnodup := h.nodup
  have hdomain := h.domain
  rw [hchain] at hlinked hnodup
  simp only [hchain] at hdomain
  have hnew : d.headGuard :: ((pre ++ post).map Prod.fst ++ [d.tailGuard])
      = as ++ a :: b :: bs := by
    calc d.headGuard :: ((pre ++ post).map Prod.fst ++ [d.tailGuard])
        = (d.headGuard :: pre.map Prod.fst) ++ (post.map Prod.fst ++ [d.tailGuard]) := by
          simp
      _ = as ++ a :: b :: bs := by
          rw [has, hbs, List.append_assoc]
          rfl
  have hperm : (as ++ a :: x :: b :: bs).Perm (x :: (as ++ a :: b :: bs)) := by
    have h₁ : as ++ a :: x :: b :: bs = (as ++ [a]) ++ x :: (b :: bs) := by simp
    have h₂ : as ++ a :: b :: bs = (as ++ [a]) ++ (b :: bs) := by simp
    rw [h₁, h₂]
    exact List.perm_middle
  obtain ⟨hxmem, hnodup'⟩ := List.nodup_cons.mp (hperm.nodup_iff.mp hnodup)
  have hsome : ∀ c, (heap c).isSome = true ↔ c ≠ x ∧ (self.heap c).isSome = true := by
    intro c
    by_cases hcx : c = x
    · rw [hcx, hx']
      simp
    · by_cases hca' : c = a
      · rw [hca', ha', hca]
        simp [← hca', hcx]
      · by_cases hcb' : c = b
        · rw [hcb', hb', hcb]
          simp [← hcb', hcx]
        · rw [hother c hca' hcb' hcx]
          simp [hcx]
  have hdata : ∀ c, c ≠ x → (heap c).map Cell.data = (self.heap c).map Cell.data := by
    intro c hcx
    by_cases hca' : c = a
    · rw [hca', ha', hca]
      rfl
    · by_cases hcb' : c = b
      · rw [hcb', hb', hcb]
        rfl
      · rw [hother c hca' hcb' hcx]
  refine ⟨h.headGuard, h.tailGuard, h.freeFunction, h.copyFunction, ?_, ?_, ?_, ?_, ?_, ?_⟩
  · show Linked heap (d.headGuard :: ((pre ++ post).map Prod.fst ++ [d.tailGuard]))
    rw [hnew]
    refine hlinked.remove hca hcb ha' hb' ?_
    intro c hc
    have hcmem : c ∈ as ++ a :: b :: bs := by
      rcases List.mem_append.mp hc with hc | hc
      · exact List.mem_append_left _ hc
      · exact List.mem_append_right _ (List.mem_cons_of_mem _ (List.mem_cons_of_mem _ hc))
    obtain ⟨hca', hcb'⟩ := ne_of_nodup hnodup' hc
    exact hother c hca' hcb' fun hcx => hxmem (hcx ▸ hcmem)
  · show (d.headGuard :: ((pre ++ post).map Prod.fst ++ [d.tailGuard])).Nodup
    rw [hnew]
    exact hnodup'
  · intro item hitem
    have hmem : item ∈ d.items := by
      rw [hitems]
      rcases List.mem_append.mp hitem with hmem | hmem
      · exact List.mem_append_left _ hmem
      · exact List.mem_append_right _ (List.mem_cons_of_mem _ hmem)
    have hne : item.1 ≠ x := by
      intro heq
      refine hxmem (heq ▸ ?_)
      rw [← hnew]
      exact List.mem_cons_of_mem _ (List.mem_append_left _ (List.mem_map_of_mem hitem))
    rw [hdata _ hne]
    exact h.data item hmem
  · intro c
    show (heap c).isSome = true ↔ c ∈ d.headGuard :: ((pre ++ post).map Prod.fst ++ [d.tailGuard])
    rw [hnew, hsome c, hdomain c, hperm.mem_iff, List.mem_cons]
    constructor
    · rintro ⟨hcx, rfl | hc⟩
      · exact absurd rfl hcx
      · exact hc
    · intro hc
      exact ⟨fun hcx => hxmem (hcx ▸ hc), Or.inr hc⟩
  · show heap 0 = none
    have hzero := (hsome 0).not.mpr (by rw [h.null]; simp)
    simpa using hzero
  · show (self.size - 1).toNat = (pre ++ post).length
    have hold := h.size
    have hitemsLen : d.items.length = pre.length + post.length + 1 := by
      rw [hitems, List.length_append, List.length_cons]
      omega
    have hle : (1 : UInt64) ≤ self.size := by
      rw [UInt64.le_iff_toNat_le]
      show 1 ≤ self.size.toNat
      omega
    rw [UInt64.toNat_sub_of_le _ _ hle, List.length_append]
    show self.size.toNat - 1 = _
    omega

/-- The neighbours of a place in the list, as cells of the heap. -/
theorem Represents.neighbours (h : Represents d self) {as bs : List Address} {a b : Address}
    (hchain : d.headGuard :: (d.names ++ [d.tailGuard]) = as ++ a :: b :: bs) :
    ∃ ca cb, self.heap a = some ca ∧ self.heap b = some cb ∧ ca.next = b ∧ cb.prev = a ∧ a ≠ b := by
  have hlinked := h.linked
  have hnodup := h.nodup
  rw [hchain] at hlinked hnodup
  obtain ⟨-, ⟨hnext, hprev⟩, -⟩ := linked_append_cons_cons.mp hlinked
  obtain ⟨ca, hca, rfl⟩ := Option.map_eq_some_iff.mp hnext
  obtain ⟨cb, hcb, rfl⟩ := Option.map_eq_some_iff.mp hprev
  refine ⟨ca, cb, hca, hcb, rfl, rfl, ?_⟩
  intro heq
  have hab := (List.nodup_append.mp hnodup).2.1
  rw [heq] at hab
  exact (List.nodup_cons.mp hab).1 (List.mem_cons_self ..)

/-! ### The calls -/

/-- A call does on the heap what it does on the abstract list. -/
def Simulates (d : Deque α) (self : GenericLinkedList α) (call : Call α) : Prop :=
  ∃ self', self.run call = some ((d.apply call).2, self') ∧ Represents (d.apply call).1 self'

/-- The node that `malloc` gave is not one of the list. -/
theorem ne_of_unused {heap : Heap Address (Option α)} {x c : Address} (hx : heap x = none)
    {cell : Cell Address (Option α)} (hc : heap c = some cell) : c ≠ x := by
  rintro rfl
  rw [hx] at hc
  cases hc

/-- `insert_first` with a node and a copy. -/
theorem Represents.insertFirst_ok (h : Represents d self) {x : Address} (hx0 : x ≠ 0)
    (hx : self.heap x = none) (data : Option α) {copied : Int × Option α}
    (hcopy : ¬ (self.copyFunction = true ∧ copied.1 ≠ 0)) :
    ∃ self', self.insertFirst data x copied = some (exitCode 0, self') ∧
      Represents { d with items := (x, d.newData data copied) :: d.items } self' := by
  -- The head guard `a` and its neighbour `b`, which is the tail guard when the list is empty.
  obtain ⟨b, bs, hbs⟩ : ∃ b bs, d.items.map Prod.fst ++ [d.tailGuard] = b :: bs :=
    List.exists_cons_of_ne_nil (by simp)
  have hitems : d.items = [] ++ d.items := rfl
  have has : d.headGuard :: ([] : List (Address × Option α)).map Prod.fst
      = [] ++ [self.headGuard] := by
    rw [h.headGuard]
    rfl
  obtain ⟨ca, cb, hca, hcb, hnext, hprev, hab⟩ := h.neighbours (d.chain_split hitems has hbs)
  have hax := ne_of_unused hx hca
  have hbx := ne_of_unused hx hcb
  have hdata : self.newData data copied = d.newData data copied := by
    rw [newData, Deque.newData, h.copyFunction]
  simp only [insertFirst, if_neg hx0, if_neg hcopy, hdata, Heap.next, Heap.setNext,
    Heap.setPrev, Heap.alloc, Function.update_of_ne hax, Function.update_of_ne hbx,
    Function.update_of_ne hab, Function.update_of_ne hbx.symm, Function.update_self, hca, hcb,
    Option.map_some, Option.bind_eq_bind, Option.bind_some, hnext]
  refine ⟨_, rfl, h.splice hitems has hbs hca hcb hx hx0 ?_ ?_ ?_ ?_⟩
  · rw [Function.update_self]
  · rw [Function.update_of_ne hab.symm, Function.update_of_ne hbx, Function.update_self]
  · rw [Function.update_of_ne hax.symm, Function.update_self]
  · intro c hca' hcb' hcx
    rw [Function.update_of_ne hca', Function.update_of_ne hcx, Function.update_of_ne hcb',
      Function.update_of_ne hcx, Function.update_of_ne hcx]

/-- `insert_last` with a node and a copy. -/
theorem Represents.insertLast_ok (h : Represents d self) {x : Address} (hx0 : x ≠ 0)
    (hx : self.heap x = none) (data : Option α) {copied : Int × Option α}
    (hcopy : ¬ (self.copyFunction = true ∧ copied.1 ≠ 0)) :
    ∃ self', self.insertLast data x copied = some (exitCode 0, self') ∧
      Represents { d with items := d.items ++ [(x, d.newData data copied)] } self' := by
  -- The neighbour `a` of the tail guard, which is the head guard when the list is empty.
  obtain ⟨as, a, has⟩ : ∃ as a, d.headGuard :: d.items.map Prod.fst = as ++ [a] :=
    ⟨_, _, (List.dropLast_append_getLast (by simp)).symm⟩
  have hitems : d.items = d.items ++ [] := (List.append_nil _).symm
  have hbs : ([] : List (Address × Option α)).map Prod.fst ++ [d.tailGuard]
      = self.tailGuard :: [] := by
    rw [h.tailGuard]
    rfl
  obtain ⟨ca, cb, hca, hcb, hnext, hprev, hab⟩ := h.neighbours (d.chain_split hitems has hbs)
  have hax := ne_of_unused hx hca
  have hbx := ne_of_unused hx hcb
  have hdata : self.newData data copied = d.newData data copied := by
    rw [newData, Deque.newData, h.copyFunction]
  simp only [insertLast, if_neg hx0, if_neg hcopy, hdata, Heap.prev, Heap.setNext,
    Heap.setPrev, Heap.alloc, Function.update_of_ne hax, Function.update_of_ne hbx,
    Function.update_of_ne hab.symm, Function.update_of_ne hax.symm, Function.update_self, hca, hcb,
    Option.map_some, Option.bind_eq_bind, Option.bind_some, hprev]
  refine ⟨_, rfl, h.splice hitems has hbs hca hcb hx hx0 ?_ ?_ ?_ ?_⟩
  · rw [Function.update_of_ne hab, Function.update_of_ne hax, Function.update_self]
  · rw [Function.update_self]
  · rw [Function.update_of_ne hbx.symm, Function.update_self]
  · intro c hca' hcb' hcx
    rw [Function.update_of_ne hcb', Function.update_of_ne hcx, Function.update_of_ne hca',
      Function.update_of_ne hcx, Function.update_of_ne hcx]

/-- An element and its neighbours, as cells of the heap. -/
theorem Represents.around (h : Represents d self) {pre post : List (Address × Option α)}
    {x : Address} {v : Option α} (hitems : d.items = pre ++ (x, v) :: post)
    {as bs : List Address} {a b : Address} (has : d.headGuard :: pre.map Prod.fst = as ++ [a])
    (hbs : post.map Prod.fst ++ [d.tailGuard] = b :: bs) :
    ∃ ca cb, self.heap a = some ca ∧ self.heap b = some cb ∧ self.heap x = some ⟨v, b, a⟩ ∧
      ca.next = x ∧ cb.prev = x ∧ a ≠ x ∧ b ≠ x ∧ a ≠ b := by
  have hxbs : ((x, v) :: post).map Prod.fst ++ [d.tailGuard] = x :: b :: bs := by
    rw [List.map_cons, List.cons_append, hbs]
  have hchain := d.chain_split hitems has hxbs
  obtain ⟨ca, cx, hca, hcx, hnext, hprev, hax⟩ := h.neighbours hchain
  have hchain' : d.headGuard :: (d.names ++ [d.tailGuard]) = (as ++ [a]) ++ x :: b :: bs := by
    rw [hchain, List.append_assoc]
    rfl
  obtain ⟨cx', cb, hcx', hcb, hnext', hprev', hxb⟩ := h.neighbours hchain'
  rw [hcx] at hcx'
  obtain rfl := Option.some.inj hcx'
  have hdata := h.data (x, v) (by rw [hitems]; exact List.mem_append_right _ (List.mem_cons_self ..))
  have hv : cx.data = v := by
    rw [show self.heap (x, v).1 = some cx from hcx] at hdata
    exact Option.some.inj hdata
  have hab : a ≠ b := by
    have hnodup := h.nodup
    rw [hchain] at hnodup
    intro heq
    refine (List.nodup_cons.mp (List.nodup_append.mp hnodup).2.1).1 ?_
    rw [heq]
    exact List.mem_cons_of_mem _ (List.mem_cons_self ..)
  refine ⟨ca, cb, hca, hcb, ?_, hnext, hprev', hax, hxb.symm, hab⟩
  rw [hcx, ← hv, ← hnext', ← hprev]

/-- A list with an element has a size that is not 0. -/
theorem Represents.size_ne_zero (h : Represents d self) (hne : d.items ≠ []) : self.size ≠ 0 := by
  intro h0
  have hsize := h.size
  rw [h0] at hsize
  exact hne (List.length_eq_zero_iff.mp hsize.symm)

/-- `remove_first` of an element. -/
theorem Represents.removeFirst_ok (h : Represents d self) {item : Address × Option α}
    {rest : List (Address × Option α)} (hitems : d.items = item :: rest) {outData : Bool}
    (hout : ¬ (outData = false ∧ self.freeFunction = false)) :
    ∃ self', self.removeFirst outData = some (removed outData item.2 none, self') ∧
      Represents { d with items := rest } self' := by
  obtain ⟨x, v⟩ := item
  obtain ⟨b, bs, hbs⟩ : ∃ b bs, rest.map Prod.fst ++ [d.tailGuard] = b :: bs :=
    List.exists_cons_of_ne_nil (by simp)
  have hitems' : d.items = [] ++ (x, v) :: rest := hitems
  have has : d.headGuard :: ([] : List (Address × Option α)).map Prod.fst
      = [] ++ [self.headGuard] := by
    rw [h.headGuard]
    rfl
  obtain ⟨ca, cb, hca, hcb, hcx, hnext, hprev, hax, hbx, hab⟩ := h.around hitems' has hbs
  have hsize := h.size_ne_zero (by rw [hitems]; exact List.cons_ne_nil _ _)
  simp only [removeFirst, if_neg hsize, if_neg hout, Heap.next, Heap.setNext, Heap.setPrev,
    Heap.free, Function.update_of_ne hax.symm, Function.update_of_ne hab.symm, hca, hcb, hcx,
    Option.map_some, Option.bind_eq_bind, Option.bind_some, hnext]
  refine ⟨_, rfl, h.unlink hitems' has hbs hca hcb ?_ ?_ ?_ ?_⟩
  · rw [Function.update_of_ne hax, Function.update_of_ne hab, Function.update_self]
  · rw [Function.update_of_ne hbx, Function.update_self]
  · rw [Function.update_self]
  · intro c hca' hcb' hcx'
    rw [Function.update_of_ne hcx', Function.update_of_ne hcb', Function.update_of_ne hca']

/-- `remove_last` of an element. -/
theorem Represents.removeLast_ok (h : Represents d self) {item : Address × Option α}
    {rest : List (Address × Option α)} (hitems : d.items = rest ++ [item]) {outData : Bool}
    (hout : ¬ (outData = false ∧ self.freeFunction = false)) :
    ∃ self', self.removeLast outData = some (removed outData item.2 none, self') ∧
      Represents { d with items := rest } self' := by
  obtain ⟨x, v⟩ := item
  obtain ⟨as, a, has⟩ : ∃ as a, d.headGuard :: rest.map Prod.fst = as ++ [a] :=
    ⟨_, _, (List.dropLast_append_getLast (by simp)).symm⟩
  have hbs : ([] : List (Address × Option α)).map Prod.fst ++ [d.tailGuard]
      = self.tailGuard :: [] := by
    rw [h.tailGuard]
    rfl
  obtain ⟨ca, cb, hca, hcb, hcx, hnext, hprev, hax, hbx, hab⟩ := h.around hitems has hbs
  have hsize := h.size_ne_zero (by rw [hitems]; simp)
  simp only [removeLast, if_neg hsize, if_neg hout, Heap.prev, Heap.setNext, Heap.setPrev,
    Heap.free, Function.update_of_ne hbx.symm, Function.update_of_ne hab, hca, hcb, hcx,
    Option.map_some, Option.bind_eq_bind, Option.bind_some, hprev]
  have hrest : rest = rest ++ [] := (List.append_nil _).symm
  rw [hrest]
  refine ⟨_, rfl, h.unlink hitems has hbs hca hcb ?_ ?_ ?_ ?_⟩
  · rw [Function.update_of_ne hax, Function.update_self]
  · rw [Function.update_of_ne hbx, Function.update_of_ne hab.symm, Function.update_self]
  · rw [Function.update_self]
  · intro c hca' hcb' hcx'
    rw [Function.update_of_ne hcx', Function.update_of_ne hca', Function.update_of_ne hcb']

/-- `iterator_remove` at an element. -/
theorem Represents.iteratorRemove_ok (h : Represents d self) {pre post : List (Address × Option α)}
    {x : Address} {v : Option α} (hitems : d.items = pre ++ (x, v) :: post) {outData : Bool}
    (hguard : self.atGuard x = false)
    (hout : ¬ (outData = false ∧ self.freeFunction = false)) :
    ∃ self', self.iteratorRemove x outData
        = some (removed outData v (some ((post.map Prod.fst).headD d.tailGuard)), self') ∧
      Represents { d with items := pre ++ post } self' := by
  obtain ⟨as, a, has⟩ : ∃ as a, d.headGuard :: pre.map Prod.fst = as ++ [a] :=
    ⟨_, _, (List.dropLast_append_getLast (by simp)).symm⟩
  obtain ⟨b, bs, hbs⟩ : ∃ b bs, post.map Prod.fst ++ [d.tailGuard] = b :: bs :=
    List.exists_cons_of_ne_nil (by simp)
  obtain ⟨ca, cb, hca, hcb, hcx, hnext, hprev, hax, hbx, hab⟩ := h.around hitems has hbs
  -- The iterator goes to the next node, which is the tail guard after the last element.
  have hnextNode : (post.map Prod.fst).headD d.tailGuard = b := by
    cases post with
    | nil => exact (List.cons.inj hbs).1
    | cons item post => exact (List.cons.inj hbs).1
  rw [hnextNode]
  have hguard' : ¬ self.atGuard x = true := by
    rw [hguard]
    exact Bool.false_ne_true
  simp only [iteratorRemove, if_neg hguard', if_neg hout, Heap.next, Heap.prev, Heap.setNext,
    Heap.setPrev, Heap.free, Function.update_of_ne hax.symm, Function.update_of_ne hab.symm, hca,
    hcb, hcx, Option.map_some, Option.bind_eq_bind, Option.bind_some]
  refine ⟨_, rfl, h.unlink hitems has hbs hca hcb ?_ ?_ ?_ ?_⟩
  · rw [Function.update_of_ne hax, Function.update_of_ne hab, Function.update_self]
  · rw [Function.update_of_ne hbx, Function.update_self]
  · rw [Function.update_self]
  · intro c hca' hcb' hcx'
    rw [Function.update_of_ne hcx', Function.update_of_ne hcb', Function.update_of_ne hca']

/-- An insertion simulates the abstract one when the two cases with a node and a copy do. -/
theorem Represents.simulates_insert (h : Represents d self) {x : Address} {data : Option α}
    {copied : Int × Option α} {place : Address × Option α → List (Address × Option α)}
    {op : Option (Result α × GenericLinkedList α)}
    (hcan : x = 0 ∨ (self.heap x).isNone = true)
    (hnull : x = 0 → op = some (exitCode (-1), self))
    (hfail : x ≠ 0 → self.copyFunction = true ∧ copied.1 ≠ 0 →
      op = some (exitCode copied.1, self))
    (hok : x ≠ 0 → self.heap x = none → ¬ (self.copyFunction = true ∧ copied.1 ≠ 0) →
      ∃ self', op = some (exitCode 0, self') ∧
        Represents { d with items := place (x, d.newData data copied) } self') :
    ∃ self', op = some ((d.insert data x copied place).2, self') ∧
      Represents (d.insert data x copied place).1 self' := by
  unfold Deque.insert
  by_cases hx0 : x = 0
  · rw [if_pos hx0]
    exact ⟨self, hnull hx0, h⟩
  · rw [if_neg hx0]
    have hx : self.heap x = none := by
      rcases hcan with hx | hx
      · exact absurd hx hx0
      · exact Option.isNone_iff_eq_none.mp hx
    by_cases hcopy : d.copyFunction = true ∧ copied.1 ≠ 0
    · rw [if_pos hcopy]
      rw [← h.copyFunction] at hcopy
      exact ⟨self, hfail hx0 hcopy, h⟩
    · rw [if_neg hcopy]
      rw [← h.copyFunction] at hcopy
      exact hok hx0 hx hcopy

/-- The cell at which an iterator stands is a guard or an element. -/
theorem Represents.iterator_cases (h : Represents d self) {it : Address}
    (hit : (self.heap it).isSome = true) :
    (self.atGuard it = true ∧ d.items.dropWhile (fun item => item.1 ≠ it) = []) ∨
    (self.atGuard it = false ∧ ∃ v post,
      d.items = d.items.takeWhile (fun item => item.1 ≠ it) ++ (it, v) :: post ∧
      d.items.dropWhile (fun item => item.1 ≠ it) = (it, v) :: post) := by
  have hnodup := h.nodup
  have hmem := (h.domain it).mp hit
  have hguard : self.atGuard it = true ↔ it = d.headGuard ∨ it = d.tailGuard := by
    rw [atGuard, h.headGuard, h.tailGuard, decide_eq_true_iff]
  have hnames : it ∈ d.names → self.atGuard it = false := by
    intro hname
    rw [← Bool.not_eq_true, hguard]
    obtain ⟨hhead, hrest⟩ := List.nodup_cons.mp hnodup
    rintro (rfl | rfl)
    · exact hhead (List.mem_append_left _ hname)
    · exact List.disjoint_of_nodup_append hrest hname (List.mem_singleton_self _)
  cases hdrop : d.items.dropWhile (fun item => item.1 ≠ it) with
  | nil =>
      left
      refine ⟨?_, rfl⟩
      have hnot : it ∉ d.names := by
        intro hname
        obtain ⟨item, hitem, rfl⟩ := List.mem_map.mp hname
        have hall := List.dropWhile_eq_nil_iff.mp hdrop item hitem
        simp at hall
      rw [hguard]
      simp only [List.mem_cons, List.mem_append, List.mem_nil_iff, or_false] at hmem
      tauto
  | cons item post =>
      right
      have hfirst : item.1 = it := by
        have hhead := List.head?_dropWhile_not (fun item : Address × Option α => item.1 ≠ it) d.items
        rw [hdrop] at hhead
        simpa using hhead
      have hsplit := List.takeWhile_append_dropWhile
        (p := fun item : Address × Option α => decide (item.1 ≠ it)) (l := d.items)
      rw [hdrop] at hsplit
      have hitem : item = (it, item.2) := by rw [← hfirst]
      refine ⟨hnames ?_, item.2, post, ?_, ?_⟩
      · rw [← hfirst]
        exact List.mem_map_of_mem (hsplit ▸ List.mem_append_right _ (List.mem_cons_self ..))
      · rw [← hitem]
        exact hsplit.symm
      · rw [← hitem]

/-- Every call simulates the call on the abstract list. -/
theorem Represents.simulates (h : Represents d self) {call : Call α}
    (hcan : self.canCall call = true) : Simulates d self call := by
  cases call with
  | setFreeFunction set =>
      exact ⟨_, rfl, ⟨h.headGuard, h.tailGuard, rfl, h.copyFunction, h.linked, h.nodup, h.data,
        h.domain, h.null, h.size⟩⟩
  | setCopyFunction set =>
      exact ⟨_, rfl, ⟨h.headGuard, h.tailGuard, h.freeFunction, rfl, h.linked, h.nodup, h.data,
        h.domain, h.null, h.size⟩⟩
  | insertFirst data newNode copied =>
      refine h.simulates_insert (by simpa [canCall] using hcan) ?_ ?_ ?_
      · intro hx0
        exact if_pos hx0
      · intro hx0 hcopy
        exact (if_neg hx0).trans (if_pos hcopy)
      · intro hx0 hx hcopy
        exact h.insertFirst_ok hx0 hx data hcopy
  | insertLast data newNode copied =>
      refine h.simulates_insert (by simpa [canCall] using hcan) ?_ ?_ ?_
      · intro hx0
        exact if_pos hx0
      · intro hx0 hcopy
        exact (if_neg hx0).trans (if_pos hcopy)
      · intro hx0 hx hcopy
        exact h.insertLast_ok hx0 hx data hcopy
  | removeFirst outData =>
      cases hitems : d.items with
      | nil =>
          have happly : d.apply (.removeFirst outData) = d.removeNone outData := by
            simp only [Deque.apply, hitems]
          have hsize : self.size = 0 := by
            rw [← UInt64.toNat_inj, h.size, hitems]
            rfl
          refine ⟨self, ?_, ?_⟩
          · rw [happly]
            exact if_pos hsize
          · rw [happly]
            exact h
      | cons item rest =>
          have happly : d.apply (.removeFirst outData) = d.remove outData item rest := by
            simp only [Deque.apply, hitems]
          rw [Simulates, happly, Deque.remove]
          by_cases hout : outData = false ∧ d.freeFunction = false
          · rw [if_pos hout]
            rw [← h.freeFunction] at hout
            have hsize := h.size_ne_zero (by rw [hitems]; exact List.cons_ne_nil _ _)
            exact ⟨self, (if_neg hsize).trans (if_pos hout), h⟩
          · rw [if_neg hout]
            rw [← h.freeFunction] at hout
            exact h.removeFirst_ok hitems hout
  | removeLast outData =>
      cases hitems : d.items using List.reverseRecOn with
      | nil =>
          have happly : d.apply (.removeLast outData) = d.removeNone outData := by
            simp only [Deque.apply, hitems, List.getLast?_nil]
          have hsize : self.size = 0 := by
            rw [← UInt64.toNat_inj, h.size, hitems]
            rfl
          refine ⟨self, ?_, ?_⟩
          · rw [happly]
            exact if_pos hsize
          · rw [happly]
            exact h
      | append_singleton rest item =>
          have happly : d.apply (.removeLast outData) = d.remove outData item rest := by
            simp only [Deque.apply, hitems, List.getLast?_concat, List.dropLast_concat]
          rw [Simulates, happly, Deque.remove]
          by_cases hout : outData = false ∧ d.freeFunction = false
          · rw [if_pos hout]
            rw [← h.freeFunction] at hout
            have hsize := h.size_ne_zero (by rw [hitems]; simp)
            exact ⟨self, (if_neg hsize).trans (if_pos hout), h⟩
          · rw [if_neg hout]
            rw [← h.freeFunction] at hout
            exact h.removeLast_ok hitems hout
  | iteratorRemove it outData =>
      have hit : (self.heap it).isSome = true := hcan
      rcases h.iterator_cases hit with ⟨hguard, hdrop⟩ | ⟨hguard, v, post, hsplit, hdrop⟩
      · have happly : d.apply (.iteratorRemove it outData) = (d, ⟨1, none, none, some it⟩) := by
          simp only [Deque.apply, Deque.iteratorRemove, hdrop]
        rw [Simulates, happly]
        exact ⟨self, if_pos hguard, h⟩
      · have hguard' : ¬ self.atGuard it = true := by
          rw [hguard]
          exact Bool.false_ne_true
        rw [Simulates, Deque.apply, Deque.iteratorRemove, hdrop]
        simp only []
        by_cases hout : outData = false ∧ d.freeFunction = false
        · rw [if_pos hout]
          rw [← h.freeFunction] at hout
          exact ⟨self, (if_neg hguard').trans (if_pos hout), h⟩
        · rw [if_neg hout]
          rw [← h.freeFunction] at hout
          exact h.iteratorRemove_ok hsplit hguard hout

end

/-! ### The runs -/

section
variable {guards : Guards}

/-- The abstract list after one more call. -/
theorem Deque.ofRun_append (tr : List (Call α × Result α)) (e : Call α × Result α) :
    Deque.ofRun guards (tr ++ [e]) = ((Deque.ofRun guards tr).apply e.1).1 := by
  rw [Deque.ofRun, List.foldl_append]
  rfl

/-- A new list is empty. -/
theorem represents_new (guards : Guards) :
    Represents (Deque.new guards) (new guards.head guards.tail : GenericLinkedList α) := by
  have hht := guards.head_ne_tail
  have hhead : (new guards.head guards.tail : GenericLinkedList α).heap guards.head
      = some ⟨none, guards.tail, 0⟩ := by
    simp only [new, Heap.alloc]
    rw [Function.update_of_ne hht, Function.update_self]
  have htail : (new guards.head guards.tail : GenericLinkedList α).heap guards.tail
      = some ⟨none, 0, guards.head⟩ := by
    simp only [new, Heap.alloc]
    rw [Function.update_self]
  have hother : ∀ a, a ≠ guards.head → a ≠ guards.tail →
      (new guards.head guards.tail : GenericLinkedList α).heap a = none := by
    intro a hah hat
    simp only [new, Heap.alloc]
    rw [Function.update_of_ne hat, Function.update_of_ne hah]
  refine ⟨rfl, rfl, rfl, rfl, ?_, ?_, ?_, ?_, ?_, rfl⟩
  · exact List.isChain_pair.mpr ⟨Heap.next_eq hhead, Heap.prev_eq htail⟩
  · simpa [Deque.new, Deque.names] using hht
  · intro item hitem
    cases hitem
  · intro a
    show _ ↔ a ∈ [guards.head, guards.tail]
    rw [List.mem_pair]
    by_cases hah : a = guards.head
    · rw [hah, hhead]
      simp
    · by_cases hat : a = guards.tail
      · rw [hat, htail]
        simp
      · rw [hother a hah hat]
        simp [hah, hat]
  · exact hother 0 guards.head_ne_zero.symm guards.tail_ne_zero.symm

/-- A call does not move the guards. -/
theorem Deque.apply_guards (d : Deque α) (call : Call α) :
    (d.apply call).1.headGuard = d.headGuard ∧ (d.apply call).1.tailGuard = d.tailGuard := by
  have hinsert : ∀ (data : Option α) x copied place,
      (d.insert data x copied place).1.headGuard = d.headGuard ∧
        (d.insert data x copied place).1.tailGuard = d.tailGuard := by
    intro data x copied place
    unfold Deque.insert
    split_ifs <;> exact ⟨rfl, rfl⟩
  have hremove : ∀ outData (item : Address × Option α) rest,
      (d.remove outData item rest).1.headGuard = d.headGuard ∧
        (d.remove outData item rest).1.tailGuard = d.tailGuard := by
    intro outData item rest
    unfold Deque.remove
    split_ifs <;> exact ⟨rfl, rfl⟩
  cases call with
  | setFreeFunction set => exact ⟨rfl, rfl⟩
  | setCopyFunction set => exact ⟨rfl, rfl⟩
  | insertFirst data newNode copied => exact hinsert ..
  | insertLast data newNode copied => exact hinsert ..
  | removeFirst outData =>
      simp only [Deque.apply]
      split
      · exact ⟨rfl, rfl⟩
      · exact hremove ..
  | removeLast outData =>
      simp only [Deque.apply]
      split
      · exact ⟨rfl, rfl⟩
      · exact hremove ..
  | iteratorRemove it outData =>
      simp only [Deque.apply, Deque.iteratorRemove]
      split
      · exact ⟨rfl, rfl⟩
      · split_ifs <;> exact ⟨rfl, rfl⟩

/-- The guards of a list after a run. -/
theorem ofRun_guards (guards : Guards) (tr : List (Call α × Result α)) :
    (Deque.ofRun guards tr).headGuard = guards.head ∧
      (Deque.ofRun guards tr).tailGuard = guards.tail := by
  induction tr using List.reverseRecOn with
  | nil => exact ⟨rfl, rfl⟩
  | append_singleton tr e ih =>
      rw [Deque.ofRun_append, ((Deque.ofRun guards tr).apply_guards e.1).1,
        ((Deque.ofRun guards tr).apply_guards e.1).2]
      exact ih

/-- Every run simulates the run of the abstract list, with equal results. -/
theorem represents_of_run {tr : List (Call α × Result α)} {self : GenericLinkedList α}
    (h : (machine α guards).Run tr self) :
    Represents (Deque.ofRun guards tr) self ∧
    ∀ pre e post, tr = pre ++ e :: post → e.2 = ((Deque.ofRun guards pre).apply e.1).2 := by
  refine h.induction (I := fun tr self => Represents (Deque.ofRun guards tr) self ∧
    ∀ pre e post, tr = pre ++ e :: post → e.2 = ((Deque.ofRun guards pre).apply e.1).2) ?_ ?_
  · refine ⟨represents_new guards, ?_⟩
    intro pre e post htr
    simp at htr
  · intro tr self call self' e _ hinv _ hnext
    obtain ⟨hcan, hmap⟩ := Option.ite_none_right_eq_some.mp hnext
    obtain ⟨⟨r, self₁⟩, hrun, heq⟩ := Option.map_eq_some_iff.mp hmap
    obtain ⟨rfl, rfl⟩ := Prod.mk.inj heq
    obtain ⟨self₂, hrun', hrep⟩ := hinv.1.simulates hcan
    rw [hrun] at hrun'
    obtain ⟨rfl, rfl⟩ := Prod.mk.inj (Option.some.inj hrun')
    refine ⟨?_, ?_⟩
    · rw [Option.toList_some, Deque.ofRun_append]
      exact hrep
    · intro pre e post htr
      rcases append_toList_eq_append_cons htr with ⟨post', rfl, -⟩ | ⟨he, rfl, -⟩
      · exact hinv.2 pre e post' rfl
      · obtain rfl := Option.some.inj he
        rfl

/-- The doubly linked list refines a deque. After every sequence of calls on a new list, the
forward links lead from the head guard through the elements to the tail guard, and the backward
links lead back through the same nodes. All these nodes are different, `_size` is the number of the
elements, and the data along the chain are those of the abstract list. Every call has returned what
it returns on the abstract list, and every further call has a result. -/
theorem linked_list_refines_deque {tr : List (Call α × Result α)} {self : GenericLinkedList α}
    (h : (machine α guards).Run tr self) :
    let d := Deque.ofRun guards tr
    self.headGuard = guards.head ∧ self.tailGuard = guards.tail ∧
    (guards.head :: (d.names ++ [guards.tail])).IsChain (fun a b => self.heap.next a = some b) ∧
    (guards.tail :: (d.names.reverse ++ [guards.head])).IsChain
      (fun b a => self.heap.prev b = some a) ∧
    (guards.head :: (d.names ++ [guards.tail])).Nodup ∧
    self.size.toNat = d.items.length ∧
    (∀ item ∈ d.items, (self.heap item.1).map Cell.data = some item.2) ∧
    (∀ pre e post, tr = pre ++ e :: post → e.2 = ((Deque.ofRun guards pre).apply e.1).2) ∧
    ∀ call, self.canCall call = true → (self.run call).isSome := by
  obtain ⟨hrep, hresults⟩ := represents_of_run h
  have hguards := ofRun_guards guards tr
  have hback := hrep.linked.backward
  rw [hguards.1, hguards.2] at hback
  have hlinked := hrep.linked.forward
  rw [hguards.1, hguards.2] at hlinked
  have hnodup := hrep.nodup
  rw [hguards.1, hguards.2] at hnodup
  refine ⟨hrep.headGuard.trans hguards.1, hrep.tailGuard.trans hguards.2, hlinked, ?_, hnodup,
    hrep.size, hrep.data, hresults, ?_⟩
  · simpa using hback
  · intro call hcan
    obtain ⟨self', hrun, -⟩ := hrep.simulates hcan
    rw [hrun]
    rfl

end

/-- The guards of the witness. -/
def someGuards : Guards := ⟨1, 2, by decide, by decide, by decide⟩

/-- Three insertions, the removal of the middle element by an iterator, and a removal at each
end. -/
def insertAndRemove : List (Call Nat) :=
  [.insertFirst (some 5) 10 (0, none), .insertLast (some 6) 11 (0, none),
   .insertLast none 12 (0, none), .iteratorRemove 11 true, .removeLast true, .removeFirst true]

/-- The iterator goes to the node 12, the removals give NULL and 5, and the list is empty. -/
theorem linked_list_refines_deque_insertAndRemove :
    ∃ tr self, (machine Nat someGuards).Run tr self ∧
      tr.map (fun e => (e.2.outData, e.2.iterator)) =
        [(none, none), (none, none), (none, none), (some (some 6), some 12), (some none, none),
          (some (some 5), none)] ∧
      self.size.toNat = 0 ∧ (Deque.ofRun someGuards tr).items = [] := by
  obtain ⟨tr, self, hrun, hp⟩ := Machine.run_of_exec (M := machine Nat someGuards)
    insertAndRemove (fun tr self => decide (tr.map (fun e => (e.2.outData, e.2.iterator)) =
        [(none, none), (none, none), (none, none), (some (some 6), some 12), (some none, none),
          (some (some 5), none)] ∧ self.size.toNat = 0)) (by decide +kernel)
  obtain ⟨hresults, hsize⟩ := of_decide_eq_true hp
  obtain ⟨-, -, -, -, -, hlength, -⟩ := linked_list_refines_deque hrun
  rw [hsize] at hlength
  exact ⟨tr, self, hrun, hresults, hsize, List.length_eq_zero_iff.mp hlength.symm⟩

end Miez.GenericLinkedList
