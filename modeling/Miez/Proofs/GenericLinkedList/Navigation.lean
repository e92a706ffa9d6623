import Miez.GenericLinkedList.Navigation
import Miez.Proofs.GenericLinkedList.Ranges
import Miez.Proofs.GenericQueue

/-!
# `Miez.Proofs.GenericLinkedList.Navigation`: positions and moves of an iterator

The nodes of a list of `n` elements are numbered: 0 is the head guard, 1 to `n` are the elements
and `n + 1` is the tail guard (`Deque.position`). One step of an iterator is a step on the numbers
(`iteratorNext_position`, `iteratorPrev_position`), which the forward links give in one direction
and the backward links in the other. Every loop over an iterator is an induction on these two.
-/

set_option autoImplicit false

namespace Miez.GenericLinkedList

open Miez.Lib

variable {α : Type}

/-- The node with a number. -/
def Deque.position (q : Deque α) (p : Nat) : Address :=
  (q.headGuard :: (q.names ++ [q.tailGuard])).getD p 0

section
variable {q : Deque α} {self : GenericLinkedList α}

/-- The number of nodes. -/
theorem Deque.length_chain (q : Deque α) :
    (q.headGuard :: (q.names ++ [q.tailGuard])).length = q.items.length + 2 := by
  simp [Deque.names]

/-- A node of the chain by its number. -/
theorem Deque.position_eq (q : Deque α) {p : Nat} (hp : p < q.items.length + 2) :
    q.position p = (q.headGuard :: (q.names ++ [q.tailGuard])).get
      ⟨p, by rw [q.length_chain]; exact hp⟩ := by
  rw [Deque.position, List.getD_eq_getElem, List.get_eq_getElem]

/-- The last number is the tail guard. -/
theorem Deque.position_tail (q : Deque α) : q.position (q.items.length + 1) = q.tailGuard := by
  simp [Deque.position, Deque.names]

/-- The number of an element is its place in the list plus 1. -/
theorem Deque.position_item (q : Deque α) {pre post : List (Address × Option α)}
    {item : Address × Option α} (hitems : q.items = pre ++ item :: post) :
    q.position (pre.length + 1) = item.1 := by
  simp [Deque.position, Deque.names, hitems]

/-- Different numbers are different nodes. -/
theorem Represents.position_inj (h : Represents q self) {p r : Nat}
    (hp : p ≤ q.items.length + 1) (hr : r ≤ q.items.length + 1) :
    q.position p = q.position r ↔ p = r := by
  rw [q.position_eq (by omega), q.position_eq (by omega)]
  exact h.nodup.getElem_inj_iff

/-- The links between two neighbours. -/
theorem Represents.position_links (h : Represents q self) {p : Nat} (hp : p ≤ q.items.length) :
    self.heap.next (q.position p) = some (q.position (p + 1)) ∧
      self.heap.prev (q.position (p + 1)) = some (q.position p) := by
  rw [q.position_eq (by omega), q.position_eq (by omega)]
  exact List.isChain_iff_getElem.mp h.linked p (by rw [q.length_chain]; omega)

/-- The tail guard by its number. -/
theorem Represents.position_eq_tail (h : Represents q self) {p : Nat}
    (hp : p ≤ q.items.length + 1) : q.position p = self.tailGuard ↔ p = q.items.length + 1 := by
  rw [h.tailGuard, ← q.position_tail]
  exact h.position_inj hp le_rfl

/-- The head guard by its number. -/
theorem Represents.position_eq_head (h : Represents q self) {p : Nat}
    (hp : p ≤ q.items.length + 1) : q.position p = self.headGuard ↔ p = 0 := by
  rw [h.headGuard]
  exact h.position_inj (r := 0) hp (Nat.zero_le _)

/-- `next` goes to the next number, and is refused at the tail guard. -/
theorem Represents.iteratorNext_position (h : Represents q self) {p : Nat}
    (hp : p ≤ q.items.length + 1) :
    self.iteratorNext (q.position p) =
      some (if p = q.items.length + 1 then 1 else 0, q.position (min (p + 1) (q.items.length + 1))) := by
  rw [iteratorNext]
  by_cases htail : p = q.items.length + 1
  · rw [if_pos ((h.position_eq_tail hp).mpr htail), if_pos htail, min_eq_right (by omega), htail]
  · rw [if_neg (mt (h.position_eq_tail hp).mp htail), if_neg htail, min_eq_left (by omega),
      (h.position_links (by omega)).1]
    rfl

/-- `prev` goes to the previous number, and is refused at the head guard. -/
theorem Represents.iteratorPrev_position (h : Represents q self) {p : Nat}
    (hp : p ≤ q.items.length + 1) :
    self.iteratorPrev (q.position p) = some (if p = 0 then 1 else 0, q.position (p - 1)) := by
  rw [iteratorPrev]
  cases p with
  | zero =>
      rw [if_pos ((h.position_eq_head hp).mpr rfl)]
      rfl
  | succ p =>
      rw [if_neg (mt (h.position_eq_head hp).mp (Nat.succ_ne_zero p)),
        (h.position_links (by omega)).2]
      rfl

/-- `advance` stops at the tail guard. -/
theorem Represents.advanceLoop_position (h : Represents q self) {p : Nat}
    (hp : p ≤ q.items.length + 1) (rounds : Nat) :
    self.advanceLoop rounds (q.position p) =
      some (q.position (min (p + rounds) (q.items.length + 1))) := by
  induction rounds generalizing p with
  | zero => rw [advanceLoop, Nat.add_zero, min_eq_left hp]
  | succ rounds ih =>
      rw [advanceLoop]
      by_cases htail : p = q.items.length + 1
      · rw [if_neg (not_not_intro ((h.position_eq_tail hp).mpr htail)), htail,
          min_eq_right (by omega)]
      · rw [if_pos (mt (h.position_eq_tail hp).mp htail), (h.position_links (by omega)).1,
          Option.bind_some, ih (by omega)]
        congr 3
        omega

/-- `reverse_advance` stops at the head guard. -/
theorem Represents.reverseAdvanceLoop_position (h : Represents q self) {p : Nat}
    (hp : p ≤ q.items.length + 1) (rounds : Nat) :
    self.reverseAdvanceLoop rounds (q.position p) = some (q.position (p - rounds)) := by
  induction rounds generalizing p with
  | zero => rfl
  | succ rounds ih =>
      rw [reverseAdvanceLoop]
      cases p with
      | zero =>
          rw [if_neg (not_not_intro ((h.position_eq_head hp).mpr rfl)), Nat.zero_sub]
      | succ p =>
          rw [if_pos (mt (h.position_eq_head hp).mp (Nat.succ_ne_zero p)),
            (h.position_links (by omega)).2, Option.bind_some, ih (by omega)]
          congr 2
          omega

/-- Many calls of `next`, with refusals ignored. -/
theorem Represents.repeated_next (h : Represents q self) {p : Nat}
    (hp : p ≤ q.items.length + 1) (k : Nat) :
    repeated self.iteratorNext k (q.position p) =
      some (q.position (min (p + k) (q.items.length + 1))) := by
  induction k generalizing p with
  | zero => rw [repeated, Nat.add_zero, min_eq_left hp]
  | succ k ih =>
      rw [repeated, h.iteratorNext_position hp, Option.bind_some, ih (min_le_right _ _)]
      congr 2
      omega

/-- Many calls of `prev`, with refusals ignored. -/
theorem Represents.repeated_prev (h : Represents q self) {p : Nat}
    (hp : p ≤ q.items.length + 1) (k : Nat) :
    repeated self.iteratorPrev k (q.position p) = some (q.position (p - k)) := by
  induction k generalizing p with
  | zero => rfl
  | succ k ih =>
      rw [repeated, h.iteratorPrev_position hp, Option.bind_some, ih (by omega)]
      congr 2
      omega

/-! ### Distances -/

/-- The loop of `distance` from a number to a later one. The head guard is not counted. -/
theorem Represents.distanceLoop_position (h : Represents q self) {p r : Nat} (hpr : p ≤ r)
    (hr : r ≤ q.items.length + 1) {fuel : Nat} (hfuel : r - p < fuel) (distance : UInt64) :
    self.distanceLoop (q.position r) fuel (q.position p) distance =
      some (0, some (distance + UInt64.ofNat (r - max p 1))) := by
  induction fuel generalizing p distance with
  | zero => exact absurd hfuel (Nat.not_lt_zero _)
  | succ fuel ih =>
      have hp : p ≤ q.items.length + 1 := hpr.trans hr
      rw [distanceLoop]
      by_cases heq : p = r
      · rw [if_neg (fun hne => hne.2 (congrArg q.position heq)), heq,
          Nat.sub_eq_zero_of_le (le_max_left r 1)]
        exact congrArg (fun d => some (0, some d)) (UInt64.add_zero distance).symm
      · have hzero : q.position p ≠ 0 := by
          intro h0
          have hnext := (h.position_links (p := p) (by omega)).1
          rw [h0, Heap.next, h.null] at hnext
          cases hnext
        have htail : p ≠ q.items.length + 1 := by omega
        rw [if_pos ⟨hzero, mt (h.position_inj hp hr).mp heq⟩,
          if_neg (mt (h.position_eq_tail hp).mp htail), (h.position_links (by omega)).1]
        refine (ih (p := p + 1) (by omega) (by omega) _).trans ?_
        by_cases hhead : p = 0
        · rw [if_neg (not_not_intro ((h.position_eq_head hp).mpr hhead)), hhead]
          rfl
        · rw [if_pos (mt (h.position_eq_head hp).mp hhead), UInt64.add_assoc,
            max_eq_left (by omega : 1 ≤ p + 1), max_eq_left (by omega : 1 ≤ p)]
          have hsucc : r - p = 1 + (r - (p + 1)) := by omega
          rw [hsucc, UInt64.ofNat_add]
          rfl

/-- The loop of `distance` from a number to an earlier one comes to the tail guard. -/
theorem Represents.distanceLoop_position_unreachable (h : Represents q self) {p r : Nat}
    (hrp : r < p) (hp : p ≤ q.items.length + 1) {fuel : Nat}
    (hfuel : q.items.length + 1 - p < fuel) (distance : UInt64) :
    self.distanceLoop (q.position r) fuel (q.position p) distance = some (1, none) := by
  induction fuel generalizing p distance with
  | zero => exact absurd hfuel (Nat.not_lt_zero _)
  | succ fuel ih =>
      have hzero : q.position p ≠ 0 := by
        intro h0
        obtain ⟨p, rfl⟩ : ∃ m, p = m + 1 := ⟨p - 1, by omega⟩
        have hprev := (h.position_links (p := p) (by omega)).2
        rw [h0, Heap.prev, h.null] at hprev
        cases hprev
      have hne : q.position p ≠ q.position r := mt (h.position_inj hp (by omega)).mp (by omega)
      rw [distanceLoop, if_pos ⟨hzero, hne⟩]
      by_cases htail : p = q.items.length + 1
      · rw [if_pos ((h.position_eq_tail hp).mpr htail)]
      · rw [if_neg (mt (h.position_eq_tail hp).mp htail), (h.position_links (by omega)).1]
        exact ih (by omega) (by omega) (by omega) _

/-! ### Traversals -/

/-- An element by its number: a valid place of an iterator, with its data. -/
theorem Represents.element_at (h : Represents q self) {p : Nat} (hp : p < q.items.length) :
    self.iteratorIsValid (q.position (p + 1)) = 0 ∧
      self.iteratorGet (q.position (p + 1)) = some (0, (q.items.get ⟨p, hp⟩).2) := by
  have hitems : q.items = q.items.take p ++ q.items.get ⟨p, hp⟩ :: q.items.drop (p + 1) := by
    rw [List.get_eq_getElem, List.getElem_cons_drop, List.take_append_drop]
  have hlength : (q.items.take p).length = p := List.length_take_of_le hp.le
  have hposition := q.position_item hitems
  rw [hlength] at hposition
  obtain ⟨-, -, hguard⟩ := GenericQueue.cell_of_represents h (x := (q.items.get ⟨p, hp⟩).1) hitems
  rw [hposition]
  refine ⟨?_, GenericQueue.iteratorGet_spec h hitems⟩
  rw [iteratorIsValid, hguard]
  rfl

/-- A guard is not a valid place. -/
theorem Represents.guard_at (h : Represents q self) {p : Nat}
    (hp : p = 0 ∨ p = q.items.length + 1) : self.iteratorIsValid (q.position p) ≠ 0 := by
  have hguard : self.atGuard (q.position p) = true := by
    rw [atGuard, decide_eq_true_iff]
    rcases hp with rfl | rfl
    · exact Or.inl ((h.position_eq_head (Nat.zero_le _)).mpr rfl)
    · exact Or.inr ((h.position_eq_tail le_rfl).mpr rfl)
  rw [iteratorIsValid, if_pos hguard]
  exact one_ne_zero

/-- A traversal with `next` reads the elements from its start on. -/
theorem Represents.traverse_next (h : Represents q self) {p : Nat} (hp : p ≤ q.items.length)
    {rounds : Nat} (hrounds : q.items.length - p < rounds) :
    self.traverse self.iteratorNext rounds (q.position (p + 1)) =
      some ((q.items.drop p).map Prod.snd) := by
  induction rounds generalizing p with
  | zero => exact absurd hrounds (Nat.not_lt_zero _)
  | succ rounds ih =>
      rw [traverse]
      by_cases hend : p = q.items.length
      · rw [if_neg (h.guard_at (Or.inr (congrArg (· + 1) hend))), hend, List.drop_length]
        rfl
      · have hlt : p < q.items.length := by omega
        obtain ⟨hvalid, hget⟩ := h.element_at hlt
        rw [if_pos hvalid, hget, h.iteratorNext_position (by omega),
          min_eq_left (by omega : p + 1 + 1 ≤ q.items.length + 1)]
        show ((self.traverse self.iteratorNext rounds (q.position (p + 1 + 1))).bind
          fun rest => some ((q.items.get ⟨p, hlt⟩).2 :: rest)) = _
        rw [ih (by omega) (by omega), List.drop_eq_getElem_cons hlt]
        rfl

/-- A traversal with `prev` reads the elements up to its start, in reverse. -/
theorem Represents.traverse_prev (h : Represents q self) {p : Nat} (hp : p ≤ q.items.length)
    {rounds : Nat} (hrounds : p < rounds) :
    self.traverse self.iteratorPrev rounds (q.position p) =
      some ((q.items.take p).map Prod.snd).reverse := by
  induction p generalizing rounds with
  | zero =>
      obtain ⟨rounds, rfl⟩ : ∃ m, rounds = m + 1 := ⟨rounds - 1, by omega⟩
      rw [traverse, if_neg (h.guard_at (Or.inl rfl))]
      rfl
  | succ p ih =>
      obtain ⟨rounds, rfl⟩ : ∃ m, rounds = m + 1 := ⟨rounds - 1, by omega⟩
      have hlt : p < q.items.length := by omega
      obtain ⟨hvalid, hget⟩ := h.element_at hlt
      rw [traverse, if_pos hvalid, hget, h.iteratorPrev_position (by omega), Nat.add_sub_cancel]
      show ((self.traverse self.iteratorPrev rounds (q.position p)).bind
        fun rest => some ((q.items.get ⟨p, hlt⟩).2 :: rest)) = _
      rw [ih hlt.le (by omega), List.take_succ_eq_append_getElem hlt, List.map_append,
        List.reverse_append]
      rfl

/-- The four places where an iterator starts, by their numbers. -/
theorem Represents.starts (h : Represents q self) :
    self.iteratorBegin = some (q.position 1) ∧
      self.iteratorReverseBegin = some (q.position q.items.length) ∧
      self.iteratorEnd = some (q.position (q.items.length + 1)) ∧
      self.iteratorReverseEnd = some (q.position 0) := by
  have hhead := (h.position_eq_head (Nat.zero_le _)).mpr rfl
  have htail := (h.position_eq_tail le_rfl).mpr rfl
  refine ⟨?_, ?_, congrArg some htail.symm, congrArg some hhead.symm⟩
  · rw [iteratorBegin, ← hhead]
    exact (h.position_links (Nat.zero_le _)).1
  · rw [iteratorReverseBegin, ← htail]
    exact (h.position_links le_rfl).2

/-- Navigation with iterators is arithmetic on the numbers of the nodes. `advance` and
`reverse_advance` stop at the guards and are as many calls of `next` and `prev`, which undo each
other. `distance` succeeds exactly from a number to one that is not smaller, and then, from a number
other than 0, it is the one count with which `advance` comes there without being stopped. The
traversals read the data in order and in reverse. -/
theorem iterator_navigation (h : Represents q self) (list : Address) {fuel : Nat}
    (hfuel : self.size.toNat + 2 ≤ fuel) :
    (∀ p k, p ≤ q.items.length + 1 →
      self.iteratorAdvance (q.position p) k =
        some (0, q.position (min (p + k.toNat) (q.items.length + 1))) ∧
      repeated self.iteratorNext k.toNat (q.position p) =
        some (q.position (min (p + k.toNat) (q.items.length + 1)))) ∧
    (∀ p k, p ≤ q.items.length + 1 →
      self.iteratorReverseAdvance (q.position p) k = some (0, q.position (p - k.toNat)) ∧
      repeated self.iteratorPrev k.toNat (q.position p) = some (q.position (p - k.toNat))) ∧
    (∀ p, p ≤ q.items.length →
      self.iteratorNext (q.position p) = some (0, q.position (p + 1)) ∧
      self.iteratorPrev (q.position (p + 1)) = some (0, q.position p)) ∧
    (∀ p r, p ≤ q.items.length + 1 → r ≤ q.items.length + 1 →
      ((∃ d, self.iteratorDistance fuel (some ⟨list, q.position p⟩) (some ⟨list, q.position r⟩) true
        = some (0, some d)) ↔ p ≤ r) ∧
      (r < p → self.iteratorDistance fuel (some ⟨list, q.position p⟩) (some ⟨list, q.position r⟩)
        true = some (1, none)) ∧
      (1 ≤ p → ∀ d, self.iteratorDistance fuel (some ⟨list, q.position p⟩)
          (some ⟨list, q.position r⟩) true = some (0, some d) →
        ∀ d', (p + d'.toNat ≤ q.items.length + 1 ∧
          self.iteratorAdvance (q.position p) d' = some (0, q.position r)) ↔ d' = d)) ∧
    self.iteratorBegin.bind (self.traverse self.iteratorNext fuel) =
      some (q.items.map Prod.snd) ∧
    self.iteratorReverseBegin.bind (self.traverse self.iteratorPrev fuel) =
      some (q.items.map Prod.snd).reverse := by
  have hsize := h.size
  have hadvance : ∀ p (k : UInt64), p ≤ q.items.length + 1 →
      self.iteratorAdvance (q.position p) k =
        some (0, q.position (min (p + k.toNat) (q.items.length + 1))) := by
    intro p k hp
    rw [iteratorAdvance, h.advanceLoop_position hp]
    rfl
  have hdistance : ∀ p r, p ≤ r → r ≤ q.items.length + 1 →
      self.iteratorDistance fuel (some ⟨list, q.position p⟩) (some ⟨list, q.position r⟩) true
        = some (0, some (UInt64.ofNat (r - max p 1))) := by
    intro p r hpr hr
    rw [iteratorDistance_eq, h.distanceLoop_position hpr hr (by omega), UInt64.zero_add]
  have herror : ∀ p r, r < p → p ≤ q.items.length + 1 →
      self.iteratorDistance fuel (some ⟨list, q.position p⟩) (some ⟨list, q.position r⟩) true
        = some (1, none) := by
    intro p r hrp hp
    rw [iteratorDistance_eq, h.distanceLoop_position_unreachable hrp hp (by omega)]
  refine ⟨?_, ?_, ?_, ?_, ?_, ?_⟩
  · intro p k hp
    exact ⟨hadvance p k hp, h.repeated_next hp k.toNat⟩
  · intro p k hp
    refine ⟨?_, h.repeated_prev hp k.toNat⟩
    rw [iteratorReverseAdvance, h.reverseAdvanceLoop_position hp]
    rfl
  · intro p hp
    have hnext := h.iteratorNext_position (p := p) (by omega)
    have hprev := h.iteratorPrev_position (p := p + 1) (by omega)
    rw [if_neg (by omega), min_eq_left (by omega)] at hnext
    rw [if_neg (Nat.succ_ne_zero p), Nat.add_sub_cancel] at hprev
    exact ⟨hnext, hprev⟩
  · intro p r hp hr
    refine ⟨⟨?_, fun hpr => ⟨_, hdistance p r hpr hr⟩⟩, fun hrp => herror p r hrp hp, ?_⟩
    · rintro ⟨d, hd⟩
      by_contra hrp
      rw [herror p r (not_le.mp hrp) hp] at hd
      cases hd
    · intro hp1 d hd d'
      have hpr : p ≤ r := by
        by_contra hrp
        rw [herror p r (not_le.mp hrp) hp] at hd
        cases hd
      rw [hdistance p r hpr hr, max_eq_left hp1] at hd
      obtain rfl : UInt64.ofNat (r - p) = d := by simpa using hd
      -- there are fewer than `2 ^ 64` nodes, so the count does not wrap
      have hnodes := length_le_of_nodup h.nodup
      rw [q.length_chain] at hnodes
      have hvalue : (UInt64.ofNat (r - p)).toNat = r - p :=
        UInt64.toNat_ofNat_of_lt' (by rw [UInt64.size]; omega)
      rw [← UInt64.toNat_inj, hvalue, hadvance p d' hp]
      constructor
      · rintro ⟨hle, hto⟩
        rw [min_eq_left hle] at hto
        have hto : q.position (p + d'.toNat) = q.position r := by simpa using hto
        have hpd := (h.position_inj hle hr).mp hto
        omega
      · intro hd'
        have hpd : p + d'.toNat = r := by omega
        rw [hpd, min_eq_left hr]
        exact ⟨hr, rfl⟩
  · rw [h.starts.1, Option.bind_some]
    exact h.traverse_next (Nat.zero_le _) (by omega)
  · rw [h.starts.2.1, Option.bind_some, h.traverse_prev le_rfl (by omega), List.take_length]

end

/-- Three elements. -/
def threeElements : List (Call Nat) :=
  [.insertLast (some 5) 10 (0, none), .insertLast none 11 (0, none),
   .insertLast (some 7) 12 (0, none)]

/-- From the first element, `advance` by 2 comes to the third one, the distance to it is 2, and the
reverse traversal reads 7, NULL and 5. -/
theorem iterator_navigation_threeElements :
    ∃ tr self, (machine Nat someGuards).Run tr self ∧
      self.iteratorAdvance 10 2 = some (0, 12) ∧
      self.iteratorDistance 5 (some ⟨20, 10⟩) (some ⟨20, 12⟩) true = some (0, some 2) ∧
      self.iteratorReverseBegin.bind (self.traverse self.iteratorPrev 5) =
        some ((Deque.ofRun someGuards tr).items.map Prod.snd).reverse ∧
      ((Deque.ofRun someGuards tr).items.map Prod.snd).reverse = [some 7, none, some 5] := by
  obtain ⟨tr, self, hrun, hp⟩ := Machine.run_of_exec (M := machine Nat someGuards) threeElements
    (fun _ self => decide (self.iteratorAdvance 10 2 = some (0, 12) ∧
      self.iteratorDistance 5 (some ⟨20, 10⟩) (some ⟨20, 12⟩) true = some (0, some 2) ∧
      self.size.toNat = 3 ∧ self.iteratorReverseBegin.bind (self.traverse self.iteratorPrev 5) =
        some [some 7, none, some 5])) (by decide +kernel)
  obtain ⟨hadvance, hdistance, hsize, htraverse⟩ := of_decide_eq_true hp
  have hnavigation := iterator_navigation (represents_of_run hrun).1 20
    (by omega : self.size.toNat + 2 ≤ 5)
  have hreverse := hnavigation.2.2.2.2.2
  refine ⟨tr, self, hrun, hadvance, hdistance, hreverse, ?_⟩
  rw [htraverse] at hreverse
  exact (Option.some.inj hreverse).symm

end Miez.GenericLinkedList
