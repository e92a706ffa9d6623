import Miez.GenericLinkedList.Iterators
import Miez.Proofs.GenericLinkedList

/-!
# `Miez.Proofs.GenericLinkedList.Ranges`: distance, find and for_each on one range

Three loops of `src/generic_linked_list.c` walk from one iterator to another one. On a list that
represents `q`, the elements between two nodes are `q.range`. Distance counts them and find
searches them, at every two positions. The loop of `generic_linked_list_iterator_for_each` stops at
the tail guard but does not skip the head guard, so it agrees with the other two exactly when the
range does not start at the head guard.
-/

set_option autoImplicit false

namespace Miez.GenericLinkedList

open Miez.Lib

variable {α : Type}

/-! ### The elements of a range -/

namespace Deque

/-- The nodes of the list with their data, the guards included. -/
def nodes (q : Deque α) : List (Address × Option α) :=
  (q.headGuard, none) :: (q.items ++ [(q.tailGuard, none)])

/-- The node is an element. -/
def isElement (q : Deque α) (node : Address × Option α) : Bool :=
  node.1 ≠ q.headGuard ∧ node.1 ≠ q.tailGuard

/-- The elements from `b` up to `e`, without `e`. -/
def range (q : Deque α) (b e : Address) : List (Address × Option α) :=
  ((q.nodes.dropWhile fun node => node.1 ≠ b).takeWhile fun node => node.1 ≠ e).filter q.isElement

/-- The addresses of the nodes are the chain. -/
theorem map_fst_nodes (q : Deque α) :
    q.nodes.map Prod.fst = q.headGuard :: (q.names ++ [q.tailGuard]) := by
  rw [nodes, List.map_cons, List.map_append]
  rfl

end Deque

/-- The node at which a walk over `mid` to the node `e` starts. -/
def firstOf (mid : List (Address × Option α)) (e : Address) : Address :=
  (mid.map Prod.fst).headD e

/-- The nodes from `b` up to `e` are `mid`. -/
def Segment (q : Deque α) (b e : Address) (mid : List (Address × Option α)) : Prop :=
  ∃ pre v post, q.nodes = pre ++ (mid ++ (e, v) :: post) ∧ b = firstOf mid e

section
variable {q : Deque α} {self : GenericLinkedList α}

/-- The nodes before a node of a list are other nodes. -/
theorem Represents.ne_of_split (h : Represents q self) {pre post : List (Address × Option α)}
    {node : Address × Option α} (hnodes : q.nodes = pre ++ node :: post) :
    ∀ other ∈ pre, other.1 ≠ node.1 := by
  have hnodup := h.nodup
  rw [← q.map_fst_nodes, hnodes, List.map_append, List.map_cons] at hnodup
  intro other hother heq
  exact List.disjoint_of_nodup_append hnodup (List.mem_map_of_mem hother)
    (heq ▸ List.mem_cons_self ..)

/-- The last node is the tail guard, and no other one is. -/
theorem Represents.tail_of_split (h : Represents q self) {pre post : List (Address × Option α)}
    {node : Address × Option α} (hnodes : q.nodes = pre ++ node :: post) :
    node.1 = q.tailGuard ↔ post = [] := by
  have hlast : q.nodes.getLast? = some (q.tailGuard, none) := by
    rw [Deque.nodes, ← List.cons_append, List.getLast?_concat]
  rw [hnodes, List.getLast?_append, List.getLast?_cons] at hlast
  constructor
  · intro htail
    cases hpost : post with
    | nil => rfl
    | cons other rest =>
        exfalso
        rw [hpost, List.getLast?_cons, Option.getD_some, Option.some_or, Option.some_inj] at hlast
        have hmem : (q.tailGuard, none) ∈ other :: rest := by
          rw [← hlast]
          exact List.mem_of_getLast? List.getLast?_cons
        obtain ⟨as, bs, hsplit⟩ := List.append_of_mem hmem
        have hnodes' : q.nodes = (pre ++ node :: as) ++ (q.tailGuard, none) :: bs := by
          rw [hnodes, hpost, hsplit, List.append_assoc, List.cons_append]
        exact h.ne_of_split hnodes' node (List.mem_append_right _ (List.mem_cons_self ..)) htail
  · intro hpost
    rw [hpost, List.getLast?_nil, Option.getD_none, Option.some_or, Option.some_inj] at hlast
    rw [hlast]

/-- A node of the list is not NULL. -/
theorem Represents.ne_zero (h : Represents q self) {node : Address × Option α}
    (hnode : node ∈ q.nodes) : node.1 ≠ 0 := by
  intro hzero
  have hsome := (h.domain node.1).mpr (q.map_fst_nodes ▸ List.mem_map_of_mem hnode)
  rw [hzero, h.null] at hsome
  cases hsome

/-- The data of an element is in its node. -/
theorem Represents.data_of_element (h : Represents q self) {node : Address × Option α}
    (hnode : node ∈ q.nodes) (helement : q.isElement node = true) :
    (self.heap node.1).map Cell.data = some node.2 := by
  obtain ⟨hhead, htail⟩ := decide_eq_true_iff.mp helement
  have hitem : node ∈ q.items := by
    rw [Deque.nodes, List.mem_cons, List.mem_append, List.mem_singleton] at hnode
    rcases hnode with rfl | hitem | rfl
    · exact absurd rfl hhead
    · exact hitem
    · exact absurd rfl htail
  exact h.data node hitem

/-- A node that is not a guard is an element. -/
theorem Represents.isElement_eq (h : Represents q self) (node : Address × Option α) :
    q.isElement node = !self.atGuard node.1 := by
  rw [Deque.isElement, atGuard, h.headGuard, h.tailGuard, Bool.decide_and, Bool.decide_or,
    decide_not, decide_not, Bool.not_or]

/-- The first node of a walk that does not end at once: it is another node than the end, the next
one is where the rest of the walk starts, and there is a cell. -/
theorem Represents.segment_cons (h : Represents q self) {pre post mid : List (Address × Option α)}
    {node : Address × Option α} {e : Address} {v : Option α}
    (hnodes : q.nodes = pre ++ (node :: mid ++ (e, v) :: post)) :
    node.1 ≠ 0 ∧ node.1 ≠ e ∧ node.1 ≠ q.tailGuard ∧
      self.heap.next node.1 = some (firstOf mid e) := by
  have hne : node.1 ≠ e := by
    have hsplit : q.nodes = (pre ++ node :: mid) ++ (e, v) :: post := by
      rw [hnodes, List.append_assoc]
    exact h.ne_of_split hsplit node (List.mem_append_right _ (List.mem_cons_self ..))
  have htail : node.1 ≠ q.tailGuard := by
    rw [Ne, h.tail_of_split hnodes]
    exact List.append_ne_nil_of_right_ne_nil _ (List.cons_ne_nil _ _)
  refine ⟨h.ne_zero (hnodes ▸ List.mem_append_right _ (List.mem_cons_self ..)), hne, htail, ?_⟩
  have hlinked := h.linked.forward
  rw [← q.map_fst_nodes, hnodes, List.map_append] at hlinked
  cases mid with
  | nil => exact (List.isChain_append_cons_cons.mp hlinked).2.1
  | cons next rest => exact (List.isChain_append_cons_cons.mp hlinked).2.1

/-- Between two positions, the range is the elements of the walk. -/
theorem Represents.range_eq (h : Represents q self) {b e : Address}
    {mid : List (Address × Option α)} (hsegment : Segment q b e mid) :
    q.range b e = mid.filter q.isElement := by
  obtain ⟨pre, v, post, hnodes, hb⟩ := hsegment
  have hdrop : q.nodes.dropWhile (fun node => node.1 ≠ b) = mid ++ (e, v) :: post := by
    cases mid with
    | nil =>
        have hne : ∀ other ∈ pre, other.1 ≠ e := h.ne_of_split hnodes
        rw [hnodes, List.dropWhile_append_of_pos (fun node hnode => by
          rw [hb]; exact decide_eq_true (hne node hnode))]
        rw [List.nil_append, List.dropWhile_cons_of_neg (by rw [hb]; simp [firstOf])]
    | cons node rest =>
        have hne : ∀ other ∈ pre, other.1 ≠ node.1 := h.ne_of_split hnodes
        rw [hnodes, List.dropWhile_append_of_pos (fun other hother => by
          rw [hb]; exact decide_eq_true (hne other hother))]
        rw [List.cons_append, List.dropWhile_cons_of_neg (by rw [hb]; simp [firstOf])]
  have htake : (mid ++ (e, v) :: post).takeWhile (fun node => node.1 ≠ e) = mid := by
    have hsplit : q.nodes = (pre ++ mid) ++ (e, v) :: post := by rw [hnodes, List.append_assoc]
    have hne : ∀ other ∈ pre ++ mid, other.1 ≠ e := h.ne_of_split hsplit
    rw [List.takeWhile_append_of_pos (fun node hnode =>
      decide_eq_true (hne node (List.mem_append_right _ hnode)))]
    rw [List.takeWhile_cons_of_neg (by simp), List.append_nil]
  rw [Deque.range, hdrop, htake]

/-- The node after a node that is not the tail guard is in the list. -/
theorem Represents.next_mem (h : Represents q self) {it next : Address}
    (hit : it ∈ q.nodes.map Prod.fst) (htail : it ≠ self.tailGuard)
    (hnext : self.heap.next it = some next) : next ∈ q.nodes.map Prod.fst := by
  rw [q.map_fst_nodes, ← List.cons_append] at hit ⊢
  refine Linked.mem_of_next h.linked ?_ hnext
  rcases List.mem_append.mp hit with hit | hit
  · exact hit
  · exact absurd (List.mem_singleton.mp hit) (h.tailGuard ▸ htail)

/-- The node before a node that is not the head guard is in the list. -/
theorem Represents.prev_mem (h : Represents q self) {it prev : Address}
    (hit : it ∈ q.nodes.map Prod.fst) (hhead : it ≠ self.headGuard)
    (hprev : self.heap.prev it = some prev) : prev ∈ q.nodes.map Prod.fst := by
  rw [q.map_fst_nodes] at hit ⊢
  refine Linked.mem_of_prev h.linked ?_ hprev
  rcases List.mem_cons.mp hit with hit | hit
  · exact absurd hit (h.headGuard ▸ hhead)
  · exact hit

/-- An iterator stands at a node of the list. -/
theorem Represents.mem_nodes (h : Represents q self) {it : Address}
    (hit : self.Position it) : it ∈ q.nodes.map Prod.fst := by
  have hhead : self.headGuard ∈ q.nodes.map Prod.fst := by
    rw [q.map_fst_nodes, h.headGuard]
    exact List.mem_cons_self ..
  have htail : self.tailGuard ∈ q.nodes.map Prod.fst := by
    rw [q.map_fst_nodes, h.tailGuard]
    exact List.mem_cons_of_mem _ (List.mem_append_right _ (List.mem_singleton_self _))
  have hne : self.headGuard ≠ self.tailGuard := by
    rw [h.headGuard, h.tailGuard]
    intro heq
    exact (List.nodup_cons.mp h.nodup).1
      (heq ▸ List.mem_append_right _ (List.mem_singleton_self _))
  induction hit with
  | begin hbegin => exact h.next_mem hhead hne hbegin
  | endGuard hend => exact Option.some_inj.mp hend ▸ htail
  | reverseBegin hbegin => exact h.prev_mem htail hne.symm hbegin
  | reverseEnd hend => exact Option.some_inj.mp hend ▸ hhead
  | @next it it' code _ hnext ih =>
      rw [iteratorNext] at hnext
      split at hnext
      · cases hnext
        exact ih
      · obtain ⟨node, hnode, heq⟩ := Option.map_eq_some_iff.mp hnext
        cases heq
        exact h.next_mem ih ‹_› hnode
  | @prev it it' code _ hprev ih =>
      rw [iteratorPrev] at hprev
      split at hprev
      · cases hprev
        exact ih
      · obtain ⟨node, hnode, heq⟩ := Option.map_eq_some_iff.mp hprev
        cases heq
        exact h.prev_mem ih ‹_› hnode

/-! ### The loops on a walk -/

/-- The distance of a walk is its number of elements. -/
theorem Represents.distanceLoop_eq (h : Represents q self) {e : Address} {v : Option α}
    {post : List (Address × Option α)} (mid : List (Address × Option α)) :
    ∀ (pre : List (Address × Option α)) (fuel : Nat) (distance : UInt64),
      q.nodes = pre ++ (mid ++ (e, v) :: post) → mid.length < fuel →
      self.distanceLoop e fuel (firstOf mid e) distance =
        some (0, some (distance + UInt64.ofNat (mid.filter q.isElement).length)) := by
  induction mid with
  | nil =>
      intro pre fuel distance _ hfuel
      obtain ⟨fuel, rfl⟩ := Nat.exists_eq_add_of_lt hfuel
      rw [distanceLoop, if_neg (fun hne => hne.2 rfl)]
      simp
  | cons node mid ih =>
      intro pre fuel distance hnodes hfuel
      cases fuel with
      | zero => exact absurd hfuel (Nat.not_lt_zero _)
      | succ fuel =>
          obtain ⟨hzero, hne, htail, hnext⟩ := h.segment_cons hnodes
          have hrest : q.nodes = (pre ++ [node]) ++ (mid ++ (e, v) :: post) := by
            rw [hnodes, List.append_assoc]
            rfl
          have hloop := ih (pre ++ [node]) fuel
            (if node.1 ≠ self.headGuard then distance + 1 else distance) hrest
            (Nat.lt_of_succ_lt_succ hfuel)
          show self.distanceLoop e (fuel + 1) node.1 distance = _
          rw [distanceLoop, if_pos ⟨hzero, hne⟩, if_neg (h.tailGuard ▸ htail), hnext]
          show self.distanceLoop e fuel (firstOf mid e) _ = _
          rw [hloop]
          by_cases hhead : node.1 = self.headGuard
          · have helement : q.isElement node = false := by
              rw [h.isElement_eq, atGuard, hhead]
              simp
            rw [if_neg (not_not_intro hhead), List.filter_cons_of_neg (by rw [helement]; simp)]
          · have helement : q.isElement node = true := by
              rw [Deque.isElement, decide_eq_true_iff, ← h.headGuard]
              exact ⟨hhead, htail⟩
            rw [if_pos hhead, List.filter_cons_of_pos helement, List.length_cons]
            rw [UInt64.ofNat_add, UInt64.add_assoc, UInt64.add_comm 1]
            rfl

/-- A walk from a node that does not come to `e` ends at the tail guard with an error. -/
theorem Represents.distanceLoop_unreachable (h : Represents q self) {e : Address}
    (post : List (Address × Option α)) :
    ∀ (pre : List (Address × Option α)) (node : Address × Option α) (fuel : Nat)
      (distance : UInt64), q.nodes = pre ++ node :: post → (∀ other ∈ node :: post, other.1 ≠ e) →
      post.length < fuel → self.distanceLoop e fuel node.1 distance = some (1, none) := by
  induction post with
  | nil =>
      intro pre node fuel distance hnodes hne hfuel
      cases fuel with
      | zero => exact absurd hfuel (Nat.not_lt_zero _)
      | succ fuel =>
          have htail : node.1 = self.tailGuard := h.tailGuard ▸ (h.tail_of_split hnodes).mpr rfl
          have hzero := h.ne_zero (hnodes ▸ List.mem_append_right _ (List.mem_cons_self ..))
          rw [distanceLoop, if_pos ⟨hzero, hne node (List.mem_cons_self ..)⟩, if_pos htail]
  | cons next post ih =>
      intro pre node fuel distance hnodes hne hfuel
      cases fuel with
      | zero => exact absurd hfuel (Nat.not_lt_zero _)
      | succ fuel =>
          -- the walk from `node` to `next` is one step
          have hwalk : q.nodes = pre ++ ([node] ++ (next.1, next.2) :: post) := hnodes
          obtain ⟨hzero, -, htail, hnext⟩ := h.segment_cons hwalk
          have hrest : q.nodes = (pre ++ [node]) ++ next :: post := by
            rw [hnodes, List.append_assoc]
            rfl
          rw [distanceLoop, if_pos ⟨hzero, hne node (List.mem_cons_self ..)⟩,
            if_neg (h.tailGuard ▸ htail), hnext]
          exact ih _ next fuel _ hrest (fun other hother => hne other (List.mem_cons_of_mem _ hother))
            (Nat.lt_of_succ_lt_succ hfuel)

/-- The first element of a walk that compares equal, or the end of the walk. -/
def foundAt (compare : Option α → Option α → Int) (target : Option α)
    (elements : List (Address × Option α)) (e : Address) : Address :=
  ((elements.find? fun node => compare node.2 target = 0).map Prod.fst).getD e

/-- The search of a walk finds its first element that compares equal. -/
theorem Represents.findLoop_eq (h : Represents q self) (begin endIt : Iterator)
    (hlist : begin.list = endIt.list) {target : Option α}
    {compare : Option α → Option α → Int} {allocated : Bool} {v : Option α}
    {post : List (Address × Option α)} (mid : List (Address × Option α)) :
    ∀ (pre : List (Address × Option α)) (fuel : Nat),
      q.nodes = pre ++ (mid ++ (endIt.currentNode, v) :: post) → mid.length < fuel →
      self.findLoop begin endIt target compare allocated fuel (firstOf mid endIt.currentNode) =
        some (newIterator allocated ⟨endIt.list,
          foundAt compare target (mid.filter q.isElement) endIt.currentNode⟩) := by
  induction mid with
  | nil =>
      intro pre fuel _ hfuel
      cases fuel with
      | zero => exact absurd hfuel (Nat.not_lt_zero _)
      | succ fuel =>
          rw [findLoop, if_neg (fun hne => hne.2 rfl)]
          rfl
  | cons node mid ih =>
      intro pre fuel hnodes hfuel
      cases fuel with
      | zero => exact absurd hfuel (Nat.not_lt_zero _)
      | succ fuel =>
          obtain ⟨hzero, hne, htail, hnext⟩ := h.segment_cons hnodes
          have hrest : q.nodes = (pre ++ [node]) ++ (mid ++ (endIt.currentNode, v) :: post) := by
            rw [hnodes, List.append_assoc]
            rfl
          have hloop := ih (pre ++ [node]) fuel hrest (Nat.lt_of_succ_lt_succ hfuel)
          show self.findLoop begin endIt target compare allocated (fuel + 1) node.1 = _
          rw [findLoop, if_pos ⟨hzero, hne⟩]
          cases hguard : self.atGuard node.1 with
          | true =>
              have helement : q.isElement node = false := by rw [h.isElement_eq, hguard]; rfl
              rw [if_pos rfl, hnext, List.filter_cons_of_neg (by rw [helement]; simp)]
              exact hloop
          | false =>
              have helement : q.isElement node = true := by rw [h.isElement_eq, hguard]; rfl
              have hdata := h.data_of_element
                (hnodes ▸ List.mem_append_right _ (List.mem_cons_self ..)) helement
              rw [if_neg Bool.false_ne_true, hdata, List.filter_cons_of_pos helement]
              show (if compare node.2 target = 0 then _ else _) = _
              by_cases hcompare : compare node.2 target = 0
              · rw [if_pos hcompare, foundAt, List.find?_cons_of_pos (by rwa [decide_eq_true_iff]),
                  hlist]
                rfl
              · rw [if_neg hcompare, foundAt,
                  List.find?_cons_of_neg (by rwa [decide_eq_true_iff]), hnext]
                exact hloop

/-- `apply` is called at every node of a walk, a guard included. -/
theorem Represents.forEachLoop_eq (h : Represents q self) {e : Address} {v : Option α}
    {post : List (Address × Option α)} (mid : List (Address × Option α)) :
    ∀ (pre : List (Address × Option α)) (fuel : Nat) (applied : List (Option α)),
      q.nodes = pre ++ (mid ++ (e, v) :: post) → mid.length < fuel →
      ∃ calls, self.forEachLoop e fuel (firstOf mid e) applied = some (0, applied ++ calls) ∧
        calls.length = mid.length ∧
        ((∀ node ∈ mid, q.isElement node = true) → calls = mid.map Prod.snd) := by
  induction mid with
  | nil =>
      intro pre fuel applied _ hfuel
      cases fuel with
      | zero => exact absurd hfuel (Nat.not_lt_zero _)
      | succ fuel =>
          refine ⟨[], ?_, rfl, fun _ => rfl⟩
          rw [forEachLoop, if_neg (fun hne => hne.2.1 rfl), List.append_nil]
  | cons node mid ih =>
      intro pre fuel applied hnodes hfuel
      cases fuel with
      | zero => exact absurd hfuel (Nat.not_lt_zero _)
      | succ fuel =>
          obtain ⟨hzero, hne, htail, hnext⟩ := h.segment_cons hnodes
          have hmem : node ∈ q.nodes := hnodes ▸ List.mem_append_right _ (List.mem_cons_self ..)
          have hrest : q.nodes = (pre ++ [node]) ++ (mid ++ (e, v) :: post) := by
            rw [hnodes, List.append_assoc]
            rfl
          have hsome := (h.domain node.1).mpr (q.map_fst_nodes ▸ List.mem_map_of_mem hmem)
          obtain ⟨cell, hcell⟩ := Option.isSome_iff_exists.mp hsome
          obtain ⟨calls, hloop, hlength, hcalls⟩ := ih (pre ++ [node]) fuel
            (applied ++ [cell.data]) hrest (Nat.lt_of_succ_lt_succ hfuel)
          refine ⟨cell.data :: calls, ?_, by rw [List.length_cons, hlength, List.length_cons], ?_⟩
          · show self.forEachLoop e (fuel + 1) node.1 applied = _
            rw [forEachLoop, if_pos ⟨hzero, hne, h.tailGuard ▸ htail⟩, hcell, hnext]
            rw [List.append_assoc] at hloop
            exact hloop
          · intro helements
            have hdata := h.data_of_element hmem (helements node (List.mem_cons_self ..))
            rw [hcell, Option.map_some, Option.some_inj] at hdata
            rw [hdata, hcalls fun other hother => helements other (List.mem_cons_of_mem _ hother)]
            rfl

/-! ### Agreement -/

/-- `generic_linked_list_iterator_distance` with two iterators on one list is its loop. -/
theorem iteratorDistance_eq (self : GenericLinkedList α) (fuel : Nat) (list b e : Address) :
    self.iteratorDistance fuel (some ⟨list, b⟩) (some ⟨list, e⟩) true =
      self.distanceLoop e fuel b 0 := by
  simp [iteratorDistance]

/-- `generic_linked_list_iterator_find` with two iterators on one list is its loop. -/
theorem iteratorFindIn_eq (self : GenericLinkedList α) (fuel : Nat) (list b e : Address)
    (target : Option α) (compare : Option α → Option α → Int) (allocated : Bool) :
    self.iteratorFindIn fuel (some ⟨list, b⟩) (some ⟨list, e⟩) target (some compare) true allocated =
      self.findLoop ⟨list, b⟩ ⟨list, e⟩ target compare allocated fuel b := by
  simp [iteratorFindIn]

/-- `generic_linked_list_iterator_for_each` with two iterators on one list is its loop. -/
theorem iteratorForEachIn_eq (self : GenericLinkedList α) (fuel : Nat) (list b e : Address) :
    self.iteratorForEachIn fuel (some ⟨list, b⟩) (some ⟨list, e⟩) true =
      self.forEachLoop e fuel b [] := by
  simp [iteratorForEachIn]

/-- Between two positions there is a walk, or the distance is an error. -/
theorem Represents.segment_of_distance (h : Represents q self) {list b e : Address} {fuel : Nat}
    {d : UInt64} (hb : self.Position b) (hfuel : self.size.toNat + 2 ≤ fuel)
    (hd : self.iteratorDistance fuel (some ⟨list, b⟩) (some ⟨list, e⟩) true = some (0, some d)) :
    ∃ mid, Segment q b e mid := by
  obtain ⟨⟨a, v⟩, hnode, rfl⟩ := List.mem_map.mp (h.mem_nodes hb)
  obtain ⟨pre, post, hnodes⟩ := List.append_of_mem hnode
  by_cases hreach : e ∈ ((a, v) :: post).map Prod.fst
  · obtain ⟨⟨e, w⟩, hend, rfl⟩ := List.mem_map.mp hreach
    obtain ⟨mid, post', hsplit⟩ := List.append_of_mem hend
    refine ⟨mid, pre, w, post', by rw [hnodes, hsplit], ?_⟩
    cases mid with
    | nil => exact congrArg Prod.fst (List.cons.inj hsplit).1
    | cons node rest => exact congrArg Prod.fst (List.cons.inj hsplit).1
  · exfalso
    have hlength : post.length < fuel := by
      have hnodesLength := congrArg List.length hnodes
      rw [Deque.nodes, List.length_append, List.length_cons, List.length_cons, List.length_append,
        List.length_singleton] at hnodesLength
      have hsize := h.size
      omega
    have herror := h.distanceLoop_unreachable (e := e) post pre (a, v) fuel 0 hnodes
      (fun other hother heq => hreach (heq ▸ List.mem_map_of_mem hother)) hlength
    rw [iteratorDistance_eq, herror] at hd
    cases hd

/-- All the nodes of a walk are elements exactly when it does not start at the head guard, or when
it is empty there. -/
theorem Represents.walk_elements (h : Represents q self) {pre mid post : List (Address × Option α)}
    {e : Address} {v : Option α} (hnodes : q.nodes = pre ++ (mid ++ (e, v) :: post)) :
    (∀ node ∈ mid, q.isElement node = true) ↔
      (firstOf mid e = self.headGuard → e = self.headGuard) := by
  rw [h.headGuard]
  constructor
  · intro helements hfirst
    cases mid with
    | nil => exact hfirst
    | cons node rest =>
        exact absurd hfirst (of_decide_eq_true (helements node (List.mem_cons_self ..))).1
  · intro hstart node hnode
    obtain ⟨as, bs, rfl⟩ := List.append_of_mem hnode
    have hsplit : q.nodes = (pre ++ as) ++ (node :: bs ++ (e, v) :: post) := by
      rw [hnodes, List.append_assoc, List.append_assoc]
    obtain ⟨-, hne, htail, -⟩ := h.segment_cons hsplit
    refine decide_eq_true ⟨?_, htail⟩
    intro hhead
    -- the head guard is the first node, so there is nothing before it in the list
    have hfirst : pre ++ as = [] := by
      cases hbefore : pre ++ as with
      | nil => rfl
      | cons first rest =>
          have hother := h.ne_of_split hsplit first (hbefore ▸ List.mem_cons_self ..)
          rw [hbefore] at hsplit
          have heq : (q.headGuard, none) = first := (List.cons.inj hsplit).1
          exact absurd (heq ▸ hhead.symm) hother
    obtain ⟨-, rfl⟩ := List.append_eq_nil_iff.mp hfirst
    exact hne (hhead.trans (hstart hhead).symm)

/-- The three algorithms agree on the elements between `b` and `e`: their number is the distance,
`apply` is called on the data of exactly these, in order, and find stops at the first one that
compares equal, or at the end. -/
structure RangeAgreement (q : Deque α) (ll : GenericLinkedList α) (fuel : Nat)
    (list b e : Address) (d : UInt64) : Prop where
  distance : (q.range b e).length = d.toNat
  forEach : ll.iteratorForEachIn fuel (some ⟨list, b⟩) (some ⟨list, e⟩) true =
    some (0, (q.range b e).map Prod.snd)
  find : ∀ target compare allocated,
    ll.iteratorFindIn fuel (some ⟨list, b⟩) (some ⟨list, e⟩) target (some compare) true allocated =
      some (newIterator allocated ⟨list, foundAt compare target (q.range b e) e⟩)

/-- The range algorithms agree at every two positions with a distance, except that for_each calls
`apply` on the head guard when the range starts there and is not empty. -/
theorem rangeAgreement_iff (h : Represents q self) {list b e : Address} {fuel : Nat} {d : UInt64}
    (hb : self.Position b) (hfuel : self.size.toNat + 2 ≤ fuel)
    (hd : self.iteratorDistance fuel (some ⟨list, b⟩) (some ⟨list, e⟩) true = some (0, some d)) :
    RangeAgreement q self fuel list b e d ↔ (b = self.headGuard → e = self.headGuard) := by
  obtain ⟨mid, hsegment⟩ := h.segment_of_distance hb hfuel hd
  have hrange := h.range_eq hsegment
  obtain ⟨pre, v, post, hnodes, rfl⟩ := hsegment
  have hchain := length_le_of_nodup h.nodup
  have hlength := congrArg List.length hnodes
  rw [← q.map_fst_nodes, List.length_map] at hchain
  rw [List.length_append, List.length_append, List.length_cons] at hlength
  have hfuel' : mid.length < fuel := by
    have hnodesLength : q.nodes.length = self.size.toNat + 2 := by
      rw [h.size, Deque.nodes, List.length_cons, List.length_append, List.length_singleton]
    omega
  have hdistance := h.distanceLoop_eq mid pre fuel 0 hnodes hfuel'
  rw [iteratorDistance_eq, hdistance, UInt64.zero_add] at hd
  have hcount : (mid.filter q.isElement).length ≤ mid.length := List.length_filter_le ..
  obtain ⟨calls, hloop, hcallsLength, hcalls⟩ := h.forEachLoop_eq mid pre fuel [] hnodes hfuel'
  rw [List.nil_append] at hloop
  rw [← h.walk_elements hnodes]
  constructor
  · intro hagree
    have hforEach := hagree.forEach
    rw [iteratorForEachIn_eq, hloop, hrange, Option.some_inj] at hforEach
    have hfull := congrArg List.length (Prod.mk.inj hforEach).2
    rw [hcallsLength, List.length_map] at hfull
    exact List.length_filter_eq_length_iff.mp hfull.symm
  · intro helements
    have hfilter : mid.filter q.isElement = mid := List.filter_eq_self.mpr helements
    refine ⟨?_, ?_, ?_⟩
    · have hvalue := Option.some.inj (Prod.mk.inj (Option.some.inj hd)).2
      have hsize : (mid.filter q.isElement).length < UInt64.size := by
        rw [UInt64.size]
        omega
      rw [hrange, ← hvalue, UInt64.toNat_ofNat_of_lt' hsize]
    · rw [iteratorForEachIn_eq, hloop, hrange, hfilter, hcalls helements]
    · intro target compare allocated
      rw [iteratorFindIn_eq, hrange]
      exact h.findLoop_eq ⟨list, firstOf mid e⟩ ⟨list, e⟩ rfl mid pre fuel hnodes hfuel'

end

/-- One element between the guards. -/
def oneElement : List (Call Nat) := [.insertLast (some 7) 10 (0, none)]

/-- From the first element to the tail guard the three algorithms agree on the one element. -/
theorem rangeAgreement_oneElement :
    ∃ tr self, (machine Nat someGuards).Run tr self ∧
      self.iteratorDistance 3 (some ⟨20, 10⟩) (some ⟨20, 2⟩) true = some (0, some 1) ∧
      RangeAgreement (Deque.ofRun someGuards tr) self 3 20 10 2 1 := by
  obtain ⟨tr, self, hrun, hp⟩ := Machine.run_of_exec (M := machine Nat someGuards) oneElement
    (fun _ self => decide (self.iteratorDistance 3 (some ⟨20, 10⟩) (some ⟨20, 2⟩) true =
        some (0, some 1) ∧ self.size.toNat = 1 ∧ self.iteratorBegin = some 10 ∧
        self.headGuard = 1)) (by decide +kernel)
  obtain ⟨hd, hsize, hbegin, hhead⟩ := of_decide_eq_true hp
  refine ⟨tr, self, hrun, hd, ?_⟩
  rw [rangeAgreement_iff (represents_of_run hrun).1 (.begin hbegin) (by omega) hd, hhead]
  intro heq
  exact absurd heq (by decide)

/-- From the head guard to the tail guard the distance is 1, but `apply` is called on the NULL of
the guard as well. -/
theorem forEach_applies_head_guard :
    ∃ tr self, (machine Nat someGuards).Run tr self ∧ self.Position 1 ∧ self.Position 2 ∧
      self.iteratorDistance 3 (some ⟨20, 1⟩) (some ⟨20, 2⟩) true = some (0, some 1) ∧
      self.iteratorForEachIn 3 (some ⟨20, 1⟩) (some ⟨20, 2⟩) true = some (0, [none, some 7]) ∧
      ¬ RangeAgreement (Deque.ofRun someGuards tr) self 3 20 1 2 1 := by
  obtain ⟨tr, self, hrun, hp⟩ := Machine.run_of_exec (M := machine Nat someGuards) oneElement
    (fun _ self => decide (self.iteratorDistance 3 (some ⟨20, 1⟩) (some ⟨20, 2⟩) true =
        some (0, some 1) ∧
        self.iteratorForEachIn 3 (some ⟨20, 1⟩) (some ⟨20, 2⟩) true = some (0, [none, some 7]) ∧
        self.iteratorEnd = some 2 ∧ self.iteratorReverseEnd = some 1)) (by decide +kernel)
  obtain ⟨hd, hforEach, hend, hreverseEnd⟩ := of_decide_eq_true hp
  refine ⟨tr, self, hrun, .reverseEnd hreverseEnd, .endGuard hend, hd, hforEach, ?_⟩
  intro hagree
  have hcalls := hagree.forEach
  rw [hforEach, Option.some_inj] at hcalls
  have hlength := congrArg List.length (Prod.mk.inj hcalls).2
  rw [List.length_map, hagree.distance] at hlength
  exact absurd hlength (by decide)

end Miez.GenericLinkedList
