import Mathlib

/-!
# `Miez.Lib.Heap`: doubly linked cells in a heap

A heap maps the addresses in use to cells, each with a datum and two links. Reads and writes of a
cell that is not there have no result.

`Linked h l`: each cell of the list `l` points forward to the next one, and that one points back.
`Linked.insert` and `Linked.remove` are the two changes of a doubly linked list: a new cell between
two neighbours, and the removal of a cell between two others. Each is about any heap that has the
cells of the old one, except for the links that the change writes. `Linked.frame` is what a write
elsewhere leaves alone.
-/

set_option autoImplicit false

namespace Miez.Lib

/-- A cell of a heap. -/
structure Cell (ι δ : Type) where
  data : δ
  next : ι
  prev : ι
deriving DecidableEq

/-- The cells that are in use. -/
abbrev Heap (ι δ : Type) : Type := ι → Option (Cell ι δ)

namespace Heap

variable {ι δ : Type}

/-- The forward link of a cell. -/
def next (h : Heap ι δ) (a : ι) : Option ι := (h a).map Cell.next

/-- The backward link of a cell. -/
def prev (h : Heap ι δ) (a : ι) : Option ι := (h a).map Cell.prev

section
variable [DecidableEq ι]

/-- A write of the forward link. -/
def setNext (h : Heap ι δ) (a b : ι) : Option (Heap ι δ) :=
  (h a).map fun c => Function.update h a (some { c with next := b })

/-- A write of the backward link. -/
def setPrev (h : Heap ι δ) (a b : ι) : Option (Heap ι δ) :=
  (h a).map fun c => Function.update h a (some { c with prev := b })

/-- A new cell at an address. -/
def alloc (h : Heap ι δ) (a : ι) (c : Cell ι δ) : Heap ι δ := Function.update h a (some c)

/-- The cell is given back. -/
def free (h : Heap ι δ) (a : ι) : Heap ι δ := Function.update h a none

/-- A write of the forward link of a cell that is there. -/
theorem setNext_eq {h : Heap ι δ} {a : ι} {c : Cell ι δ} (ha : h a = some c) (b : ι) :
    h.setNext a b = some (Function.update h a (some { c with next := b })) := by
  rw [setNext, ha]
  rfl

/-- A write of the backward link of a cell that is there. -/
theorem setPrev_eq {h : Heap ι δ} {a : ι} {c : Cell ι δ} (ha : h a = some c) (b : ι) :
    h.setPrev a b = some (Function.update h a (some { c with prev := b })) := by
  rw [setPrev, ha]
  rfl

end

/-- The forward link of a cell that is there. -/
theorem next_eq {h : Heap ι δ} {a : ι} {c : Cell ι δ} (ha : h a = some c) :
    h.next a = some c.next := by
  rw [next, ha]
  rfl

/-- The backward link of a cell that is there. -/
theorem prev_eq {h : Heap ι δ} {a : ι} {c : Cell ι δ} (ha : h a = some c) :
    h.prev a = some c.prev := by
  rw [prev, ha]
  rfl

end Heap

/-! ### Linked lists of cells -/

section
variable {ι δ : Type}

/-- Each cell of the list points to the next one, and that one points back. -/
def Linked (h : Heap ι δ) (l : List ι) : Prop :=
  l.IsChain fun a b => h.next a = some b ∧ h.prev b = some a

/-- A chain of one relation is a chain of another one that holds of the same neighbours. -/
theorem isChain_of_neighbours {R S : ι → ι → Prop} {l : List ι}
    (h : ∀ a ∈ l.dropLast, ∀ b ∈ l.tail, R a b → S a b) (hl : l.IsChain R) : l.IsChain S := by
  rw [List.isChain_iff_forall₂] at hl ⊢
  rw [List.forall₂_iff_zip] at hl ⊢
  refine ⟨hl.1, fun {a b} hab => ?_⟩
  obtain ⟨ha, hb⟩ := List.of_mem_zip hab
  exact h a ha b hb (hl.2 hab)

/-- A list stays linked when the links between its cells stay. -/
theorem Linked.frame {h h' : Heap ι δ} {l : List ι} (hl : Linked h l)
    (hnext : ∀ a ∈ l.dropLast, h'.next a = h.next a) (hprev : ∀ b ∈ l.tail, h'.prev b = h.prev b) :
    Linked h' l := by
  refine isChain_of_neighbours ?_ hl
  intro a ha b hb hab
  rw [hnext a ha, hprev b hb]
  exact hab

/-- Two lists that are linked and a link from the end of one to the start of the other. -/
theorem linked_append_cons_cons {h : Heap ι δ} {as bs : List ι} {a b : ι} :
    Linked h (as ++ a :: b :: bs) ↔
      Linked h (as ++ [a]) ∧ (h.next a = some b ∧ h.prev b = some a) ∧ Linked h (b :: bs) :=
  List.isChain_append_cons_cons

/-- The links inside the part before a cell, when only the links after that part change. -/
theorem Linked.frame_left {h h' : Heap ι δ} {as : List ι} {a : ι} (hl : Linked h (as ++ [a]))
    (hsame : ∀ c ∈ as, h' c = h c) (ha : h'.prev a = h.prev a) : Linked h' (as ++ [a]) := by
  refine hl.frame ?_ ?_
  · intro c hc
    rw [List.dropLast_concat] at hc
    rw [Heap.next, Heap.next, hsame c hc]
  · intro c hc
    rcases List.mem_append.mp (List.mem_of_mem_tail hc) with hc | hc
    · rw [Heap.prev, Heap.prev, hsame c hc]
    · rw [List.mem_singleton.mp hc, ha]

/-- The links inside the part after a cell, when only the links before that part change. -/
theorem Linked.frame_right {h h' : Heap ι δ} {bs : List ι} {b : ι} (hl : Linked h (b :: bs))
    (hsame : ∀ c ∈ bs, h' c = h c) (hb : h'.next b = h.next b) : Linked h' (b :: bs) := by
  refine hl.frame ?_ ?_
  · intro c hc
    rcases List.mem_cons.mp (List.mem_of_mem_dropLast hc) with rfl | hc
    · exact hb
    · rw [Heap.next, Heap.next, hsame c hc]
  · intro c hc
    rw [Heap.prev, Heap.prev, hsame c hc]

/-- A new cell `x` between the neighbours `a` and `b`. -/
theorem Linked.insert {h h' : Heap ι δ} {as bs : List ι} {a b x : ι} {ca cb : Cell ι δ} {d : δ}
    (hl : Linked h (as ++ a :: b :: bs)) (ha : h a = some ca) (hb : h b = some cb)
    (ha' : h' a = some { ca with next := x }) (hb' : h' b = some { cb with prev := x })
    (hx : h' x = some ⟨d, b, a⟩) (hsame : ∀ c ∈ as ++ bs, h' c = h c) :
    Linked h' (as ++ a :: x :: b :: bs) := by
  obtain ⟨hleft, -, hright⟩ := linked_append_cons_cons.mp hl
  rw [linked_append_cons_cons]
  refine ⟨hleft.frame_left (fun c hc => hsame c (List.mem_append_left _ hc)) ?_, ⟨?_, ?_⟩, ?_⟩
  · rw [Heap.prev_eq ha, Heap.prev_eq ha']
  · exact Heap.next_eq ha'
  · exact Heap.prev_eq hx
  · refine List.isChain_cons_cons.mpr ⟨⟨Heap.next_eq hx, Heap.prev_eq hb'⟩, ?_⟩
    refine hright.frame_right (fun c hc => hsame c (List.mem_append_right _ hc)) ?_
    rw [Heap.next_eq hb, Heap.next_eq hb']

/-- The cell `x` between `a` and `b` is taken out. -/
theorem Linked.remove {h h' : Heap ι δ} {as bs : List ι} {a b x : ι} {ca cb : Cell ι δ}
    (hl : Linked h (as ++ a :: x :: b :: bs)) (ha : h a = some ca) (hb : h b = some cb)
    (ha' : h' a = some { ca with next := b }) (hb' : h' b = some { cb with prev := a })
    (hsame : ∀ c ∈ as ++ bs, h' c = h c) :
    Linked h' (as ++ a :: b :: bs) := by
  obtain ⟨hleft, -, hrest⟩ := linked_append_cons_cons.mp hl
  obtain ⟨-, hright⟩ := List.isChain_cons_cons.mp hrest
  rw [linked_append_cons_cons]
  refine ⟨hleft.frame_left (fun c hc => hsame c (List.mem_append_left _ hc)) ?_, ⟨?_, ?_⟩, ?_⟩
  · rw [Heap.prev_eq ha, Heap.prev_eq ha']
  · exact Heap.next_eq ha'
  · exact Heap.prev_eq hb'
  · refine Linked.frame_right hright (fun c hc => hsame c (List.mem_append_right _ hc)) ?_
    rw [Heap.next_eq hb, Heap.next_eq hb']

/-- The forward links of a linked list. -/
theorem Linked.forward {h : Heap ι δ} {l : List ι} (hl : Linked h l) :
    l.IsChain fun a b => h.next a = some b :=
  hl.imp fun _ _ hab => hab.1

/-- The cell after a cell that is not the last one is in the list. -/
theorem Linked.mem_of_next {h : Heap ι δ} {l : List ι} {a b z : ι} (hl : Linked h (l ++ [z]))
    (ha : a ∈ l) (hab : h.next a = some b) : b ∈ l ++ [z] := by
  obtain ⟨as, bs, rfl⟩ := List.append_of_mem ha
  rw [List.append_assoc, List.cons_append] at hl ⊢
  cases hrest : bs ++ [z] with
  | nil => exact absurd hrest (List.append_ne_nil_of_right_ne_nil _ (List.cons_ne_nil _ _))
  | cons c cs =>
      rw [hrest] at hl
      have hc := (linked_append_cons_cons.mp hl).2.1.1
      rw [hab, Option.some_inj] at hc
      rw [hc]
      exact List.mem_append_right _ (List.mem_cons_of_mem _ (List.mem_cons_self ..))

/-- The cell before a cell that is not the first one is in the list. -/
theorem Linked.mem_of_prev {h : Heap ι δ} {l : List ι} {a b z : ι} (hl : Linked h (z :: l))
    (hb : b ∈ l) (hab : h.prev b = some a) : a ∈ z :: l := by
  obtain ⟨as, bs, rfl⟩ := List.append_of_mem hb
  rw [← List.cons_append] at hl ⊢
  obtain ⟨cs, c, hrest⟩ : ∃ cs c, z :: as = cs ++ [c] :=
    ⟨_, _, (List.dropLast_append_getLast (List.cons_ne_nil z as)).symm⟩
  rw [hrest, List.append_assoc, List.singleton_append] at hl ⊢
  have hc := (linked_append_cons_cons.mp hl).2.1.2
  rw [hab, Option.some_inj] at hc
  rw [hc]
  exact List.mem_append_right _ (List.mem_cons_self ..)

/-- The backward links of a linked list. -/
theorem Linked.backward {h : Heap ι δ} {l : List ι} (hl : Linked h l) :
    l.reverse.IsChain fun b a => h.prev b = some a := by
  rw [List.isChain_reverse]
  exact hl.imp fun _ _ hab => hab.2

end

end Miez.Lib
