import Miez.GenericQueue
import Miez.GenericQueueSyn
import Miez.Proofs.GenericLinkedList

/-!
# `Miez.Proofs.GenericQueue`: the synchronised queue is a linearisable FIFO

The operations on the linked list are those of the abstract queue `GenericQueueSyn`, a list with
its front first. `contentsOf` runs the operations on the abstract queue in the order of their
sections, and `returned` collects what `dequeue` gave back on a queue with elements.

`queue_linearisable`: in every run, what was returned followed by what is in the queue is what was
enqueued. Every operation gave the answer of the abstract queue at its section. The elements of one
thread come out in the order of its calls, and every section that a thread can enter has an end.
-/

set_option autoImplicit false

namespace Miez.GenericQueue

open Miez.Lib
open Miez.GenericLinkedList (Deque Represents Guards exitCode)

variable {α : Type}

/-! ### The abstract queue -/

/-- The abstract queue after one more event. -/
def applyEvent (q : GenericQueueSyn (Option α)) : Event α → GenericQueueSyn (Option α)
  | .done _ (.enqueue data) _ => q.enqueue data
  | .done _ .dequeue _ => q.dequeue.2
  | _ => q

/-- The abstract queue after a run. -/
def contentsOf (tr : List (Event α)) : GenericQueueSyn (Option α) := tr.foldl applyEvent []

/-- What an event shows of a `dequeue` on a queue with elements. -/
def returnedBy (q : GenericQueueSyn (Option α)) : Event α → List (Option α)
  | .done _ .dequeue (.data _ data) => if q = [] then [] else [data]
  | _ => []

/-- The elements that `dequeue` gave back, from a queue with the contents `q` on. -/
def returnedFrom (q : GenericQueueSyn (Option α)) : List (Event α) → List (Option α)
  | [] => []
  | e :: tr => returnedBy q e ++ returnedFrom (applyEvent q e) tr

/-- The elements that `dequeue` gave back in a run, in the order of the sections. -/
def returned (tr : List (Event α)) : List (Option α) := returnedFrom [] tr

/-- The element of an `enqueue` section, with its thread. -/
def enqueuedBy : Event α → Option (Nat × Option α)
  | .done t (.enqueue data) _ => some (t, data)
  | _ => none

/-- The enqueued elements in the order of the sections, each with its thread. -/
def enqueued (tr : List (Event α)) : List (Nat × Option α) := tr.filterMap enqueuedBy

/-- The element of a call of `enqueue` by the thread `t`. -/
def enqueueCall (t : Nat) : Event α → Option (Option α)
  | .called t' (.enqueue data) => if t' = t then some data else none
  | _ => none

/-- The elements with which the thread `t` has called `enqueue`, in the order of its calls. -/
def enqueueCalls (t : Nat) (tr : List (Event α)) : List (Option α) := tr.filterMap (enqueueCall t)

/-- The answer of the abstract queue. -/
def Observes (q : GenericQueueSyn (Option α)) : Operation α → Answer α → Prop
  | .enqueue _, answer => answer = .code 0
  | .dequeue, answer => answer = .data 0 (q.dequeue.1.getD none)
  | .peek, answer => answer = .data 0 (q.head?.getD none)
  | .peekRear, answer => answer = .data 0 (q.getLast?.getD none)
  | .size, answer => ∃ n, answer = .size 0 n ∧ n.toNat = q.size
  | .isEmpty, answer => answer = .code (if q.isEmpty then 1 else 0)
  | .contains target compare, answer =>
      answer = .code (if ∃ data ∈ q, compare data target = 0 then 1 else 0)
  | .forEach, answer => answer = .applied 0 q

/-! ### The operations on the heap -/

section
variable {d : Deque α} {self : GenericQueue α}

/-- An element as a cell of the heap: it points to the next element, or to the tail guard. -/
theorem cell_of_represents (h : Represents d self) {pre post : List (Address × Option α)}
    {x : Address} {v : Option α} (hitems : d.items = pre ++ (x, v) :: post) :
    (∃ a, self.heap x = some ⟨v, (post.map Prod.fst).headD self.tailGuard, a⟩) ∧ x ≠ 0 ∧
      self.atGuard x = false := by
  obtain ⟨as, a, has⟩ : ∃ as a, d.headGuard :: pre.map Prod.fst = as ++ [a] :=
    ⟨_, _, (List.dropLast_append_getLast (by simp)).symm⟩
  obtain ⟨b, bs, hbs⟩ : ∃ b bs, post.map Prod.fst ++ [d.tailGuard] = b :: bs :=
    List.exists_cons_of_ne_nil (by simp)
  obtain ⟨ca, cb, -, -, hx, -⟩ := h.around hitems has hbs
  have hnext : (post.map Prod.fst).headD self.tailGuard = b := by
    rw [h.tailGuard]
    cases post with
    | nil => exact (List.cons.inj hbs).1
    | cons item post => exact (List.cons.inj hbs).1
  have hname : x ∈ d.names := by
    rw [Deque.names, hitems]
    simp
  refine ⟨⟨a, by rw [hnext, hx]⟩, ?_, ?_⟩
  · rintro rfl
    rw [h.null] at hx
    cases hx
  · obtain ⟨hhead, hrest⟩ := List.nodup_cons.mp h.nodup
    rw [← Bool.not_eq_true, GenericLinkedList.atGuard, h.headGuard, h.tailGuard, decide_eq_true_iff]
    rintro (rfl | rfl)
    · exact hhead (List.mem_append_left _ hname)
    · exact List.disjoint_of_nodup_append hrest hname (List.mem_singleton_self _)

/-- The forward iterator starts at the first element, or at the tail guard. -/
theorem next_headGuard (h : Represents d self) :
    self.heap.next self.headGuard = some (d.names.headD self.tailGuard) := by
  have hlinked := h.linked
  rw [h.headGuard, h.tailGuard]
  cases hnames : d.names with
  | nil =>
      rw [hnames] at hlinked
      exact (List.isChain_cons_cons.mp hlinked).1.1
  | cons x names =>
      rw [hnames] at hlinked
      exact (List.isChain_cons_cons.mp hlinked).1.1

/-- The loop of `find` from a suffix of the elements: the first element that compares equal, or
the tail guard. -/
theorem iteratorFind_eq (h : Represents d self) (target : Option α)
    (compare : Option α → Option α → Int) (post : List (Address × Option α)) :
    ∀ (pre : List (Address × Option α)) (rounds : Nat), d.items = pre ++ post →
      post.length < rounds →
      self.iteratorFind self.tailGuard target compare rounds
          ((post.map Prod.fst).headD self.tailGuard)
        = some (((post.find? fun item => compare item.2 target == 0).map Prod.fst).getD
            self.tailGuard) := by
  induction post with
  | nil =>
      intro pre rounds hitems hrounds
      obtain ⟨rounds, rfl⟩ : ∃ m, rounds = m + 1 := ⟨rounds - 1, by omega⟩
      simp [GenericLinkedList.iteratorFind]
  | cons item post ih =>
      intro pre rounds hitems hrounds
      rw [List.length_cons] at hrounds
      obtain ⟨rounds, rfl⟩ : ∃ m, rounds = m + 1 := ⟨rounds - 1, by omega⟩
      obtain ⟨x, v⟩ := item
      obtain ⟨⟨a, hx⟩, hx0, hguard⟩ := cell_of_represents h hitems
      have hxtail : x ≠ self.tailGuard := by
        rintro rfl
        simp [GenericLinkedList.atGuard] at hguard
      have hstart : (((x, v) :: post).map Prod.fst).headD self.tailGuard = x := rfl
      have hstop : ¬ (x = 0 ∨ x = self.tailGuard) := by tauto
      rw [hstart, GenericLinkedList.iteratorFind, if_neg hstop, hx, Option.bind_some,
        if_neg (by rw [hguard]; exact Bool.false_ne_true)]
      by_cases hcmp : compare v target = 0
      · rw [if_pos hcmp, List.find?_cons_of_pos (by simpa using hcmp)]
        rfl
      · rw [if_neg hcmp, List.find?_cons_of_neg (by simpa using hcmp)]
        refine ih (pre ++ [(x, v)]) rounds ?_ (by omega)
        rw [hitems, List.append_assoc]
        rfl

/-- The loop of `for_each` from a suffix of the elements. -/
theorem iteratorForEach_eq (h : Represents d self) (post : List (Address × Option α)) :
    ∀ (pre : List (Address × Option α)) (rounds : Nat), d.items = pre ++ post →
      post.length < rounds →
      self.iteratorForEach self.tailGuard rounds ((post.map Prod.fst).headD self.tailGuard)
        = some (post.map Prod.snd) := by
  induction post with
  | nil =>
      intro pre rounds hitems hrounds
      obtain ⟨rounds, rfl⟩ : ∃ m, rounds = m + 1 := ⟨rounds - 1, by omega⟩
      simp [GenericLinkedList.iteratorForEach]
  | cons item post ih =>
      intro pre rounds hitems hrounds
      rw [List.length_cons] at hrounds
      obtain ⟨rounds, rfl⟩ : ∃ m, rounds = m + 1 := ⟨rounds - 1, by omega⟩
      obtain ⟨x, v⟩ := item
      obtain ⟨⟨a, hx⟩, hx0, hguard⟩ := cell_of_represents h hitems
      have hxtail : x ≠ self.tailGuard := by
        rintro rfl
        simp [GenericLinkedList.atGuard] at hguard
      have hstart : (((x, v) :: post).map Prod.fst).headD self.tailGuard = x := rfl
      have hstop : ¬ (x = 0 ∨ x = self.tailGuard ∨ x = self.tailGuard) := by tauto
      have hrest := ih (pre ++ [(x, v)]) rounds (by rw [hitems, List.append_assoc]; rfl) (by omega)
      rw [hstart, GenericLinkedList.iteratorForEach, if_neg hstop, hx, Option.bind_some, hrest]
      rfl

/-- The list on the heap has the elements of the abstract queue, and no copy function. -/
def Holds (q : GenericQueueSyn (Option α)) (self : GenericQueue α) : Prop :=
  ∃ d, Represents d self ∧ d.copyFunction = false ∧ d.items.map Prod.snd = q

/-- What an operation does to the abstract queue. -/
def applyOperation (q : GenericQueueSyn (Option α)) :
    Operation α → GenericQueueSyn (Option α)
  | .enqueue data => q.enqueue data
  | .dequeue => q.dequeue.2
  | _ => q

/-- `_size` is the number of elements, and the emptiness test looks at it. -/
theorem isEmpty_of_represents (h : Represents d self) :
    isEmpty self = if d.items = [] then 1 else 0 := by
  have hzero : self.size = 0 ↔ d.items = [] := by
    rw [← UInt64.toNat_inj, h.size]
    exact List.length_eq_zero_iff
  unfold isEmpty
  by_cases hnil : d.items = []
  · rw [if_pos hnil, if_pos (hzero.mpr hnil)]
  · rw [if_neg hnil, if_neg fun h0 => hnil (hzero.mp h0)]

/-- `enqueue` puts the element at the rear. -/
theorem enqueue_spec (h : Represents d self) (hcopy : d.copyFunction = false) {newNode : Address}
    (hne : newNode ≠ 0) (hunused : self.heap newNode = none) (data : Option α) :
    ∃ self', enqueue self data newNode = some (.code 0, self') ∧
      Holds ((d.items.map Prod.snd) ++ [data]) self' := by
  have hnocopy : ¬ (self.copyFunction = true ∧ ((0, data) : Int × Option α).1 ≠ 0) := by simp
  obtain ⟨self', hrun, hrep⟩ := h.insertLast_ok hne hunused data hnocopy
  refine ⟨self', ?_, _, hrep, hcopy, ?_⟩
  · rw [enqueue, hrun]
    rfl
  · have hdata : d.newData data (0, data) = data := by
      rw [Deque.newData, hcopy]
      rfl
    rw [hdata, List.map_append]
    rfl

/-- `dequeue` takes the element at the front. On an empty queue it gives NULL. -/
theorem dequeue_spec (h : Represents d self) (hcopy : d.copyFunction = false) :
    ∃ self', dequeue self = some (.data 0 ((GenericQueueSyn.dequeue (d.items.map Prod.snd)).1.getD
        none), self') ∧ Holds (GenericQueueSyn.dequeue (d.items.map Prod.snd)).2 self' := by
  cases hitems : d.items with
  | nil =>
      have hsize : self.size = 0 := by
        rw [← UInt64.toNat_inj, h.size, hitems]
        rfl
      refine ⟨self, ?_, d, h, hcopy, by rw [hitems]; rfl⟩
      rw [dequeue, GenericLinkedList.removeFirst, if_pos hsize]
      rfl
  | cons item rest =>
      have hout : ¬ (true = false ∧ self.freeFunction = false) := by simp
      obtain ⟨self', hrun, hrep⟩ := h.removeFirst_ok hitems hout
      refine ⟨self', ?_, _, hrep, hcopy, rfl⟩
      rw [dequeue, hrun]
      rfl

/-- An iterator at an element gives its datum. -/
theorem iteratorGet_spec (h : Represents d self) {pre post : List (Address × Option α)}
    {x : Address} {v : Option α} (hitems : d.items = pre ++ (x, v) :: post) :
    self.iteratorGet x = some (0, v) := by
  obtain ⟨⟨a, hx⟩, -, hguard⟩ := cell_of_represents h hitems
  rw [GenericLinkedList.iteratorGet, if_neg (by rw [hguard]; exact Bool.false_ne_true), hx]
  rfl

/-- `peek` gives the front. -/
theorem peek_spec (h : Represents d self) :
    peek self = some (.data 0 ((d.items.map Prod.snd).head?.getD none)) := by
  cases hitems : d.items with
  | nil =>
      have hempty : isEmpty self ≠ 0 := by
        rw [isEmpty_of_represents h, hitems]
        exact one_ne_zero
      rw [peek, if_pos hempty]
      rfl
  | cons item rest =>
      have hempty : ¬ isEmpty self ≠ 0 := by
        rw [isEmpty_of_represents h, hitems]
        exact not_not.mpr rfl
      have hitems' : d.items = [] ++ (item.1, item.2) :: rest := hitems
      have hget := iteratorGet_spec h hitems'
      have hnames : d.names.headD self.tailGuard = item.1 := by
        rw [Deque.names, hitems]
        rfl
      rw [peek, if_neg hempty, next_headGuard h, hnames, Option.bind_some, hget]
      rfl

/-- `peek_rear` gives the rear. -/
theorem peekRear_spec (h : Represents d self) :
    peekRear self = some (.data 0 ((d.items.map Prod.snd).getLast?.getD none)) := by
  cases hitems : d.items using List.reverseRecOn with
  | nil =>
      have hempty : isEmpty self ≠ 0 := by
        rw [isEmpty_of_represents h, hitems]
        exact one_ne_zero
      rw [peekRear, if_pos hempty]
      rfl
  | append_singleton rest item =>
      have hempty : ¬ isEmpty self ≠ 0 := by
        rw [isEmpty_of_represents h, if_neg (by rw [hitems]; simp)]
        exact not_not.mpr rfl
      have hget := iteratorGet_spec h (x := item.1) (v := item.2) hitems
      have hprev : self.heap.prev self.tailGuard = some item.1 := by
        have hlinked := h.linked
        have hchain : d.headGuard :: (d.names ++ [d.tailGuard])
            = (d.headGuard :: rest.map Prod.fst) ++ item.1 :: d.tailGuard :: [] := by
          rw [Deque.names, hitems]
          simp
        rw [hchain] at hlinked
        rw [h.tailGuard]
        exact (linked_append_cons_cons.mp hlinked).2.1.2
      rw [peekRear, if_neg hempty, hprev, Option.bind_some, hget]
      simp

/-- `contains` looks for an element that compares equal. -/
theorem contains_spec (h : Represents d self) (target : Option α)
    (compare : Option α → Option α → Int) :
    contains self target compare
      = some (.code (if ∃ data ∈ d.items.map Prod.snd, compare data target = 0 then 1 else 0)) := by
  have hfind := iteratorFind_eq h target compare d.items [] (self.size.toNat + 1) rfl
    (by rw [h.size]; omega)
  have hnames : d.names.headD self.tailGuard = (d.items.map Prod.fst).headD self.tailGuard := rfl
  rw [contains, next_headGuard h, Option.bind_some, hnames, hfind, Option.map_some]
  cases hfound : d.items.find? fun item => compare item.2 target == 0 with
  | none =>
      have hnone : ¬ ∃ data ∈ d.items.map Prod.snd, compare data target = 0 := by
        rintro ⟨data, hdata, hcmp⟩
        obtain ⟨item, hitem, rfl⟩ := List.mem_map.mp hdata
        exact List.find?_eq_none.mp hfound item hitem (by simpa using hcmp)
      rw [if_neg hnone]
      simp [GenericLinkedList.iteratorIsValid, GenericLinkedList.atGuard]
  | some item =>
      have hmem := List.mem_of_find?_eq_some hfound
      have hcmp : compare item.2 target = 0 := by
        simpa using List.find?_some hfound
      have hsome : ∃ data ∈ d.items.map Prod.snd, compare data target = 0 :=
        ⟨item.2, List.mem_map_of_mem hmem, hcmp⟩
      obtain ⟨pre, post, hsplit⟩ := List.append_of_mem hmem
      obtain ⟨-, -, hguard⟩ := cell_of_represents h hsplit
      rw [if_pos hsome]
      simp [GenericLinkedList.iteratorIsValid, hguard]

/-- `for_each` visits all elements in order. -/
theorem forEach_spec (h : Represents d self) :
    forEach self = some (.applied 0 (d.items.map Prod.snd)) := by
  have hloop := iteratorForEach_eq h d.items [] (self.size.toNat + 1) rfl (by rw [h.size]; omega)
  have hnames : d.names.headD self.tailGuard = (d.items.map Prod.fst).headD self.tailGuard := rfl
  rw [forEach, next_headGuard h, Option.bind_some, hnames, hloop]
  rfl

/-- Every operation is the operation of the abstract queue. -/
theorem run_spec {q : GenericQueueSyn (Option α)} (h : Holds q self) {newNode : Address}
    {operation : Operation α} (hnode : hasNode self newNode operation = true) :
    ∃ answer self', run self newNode operation = some (answer, self') ∧
      Observes q operation answer ∧ Holds (applyOperation q operation) self' := by
  obtain ⟨d, hrep, hcopy, rfl⟩ := h
  have hsame : Holds (d.items.map Prod.snd) self := ⟨d, hrep, hcopy, rfl⟩
  cases operation with
  | enqueue data =>
      obtain ⟨hne, hunused⟩ : newNode ≠ 0 ∧ self.heap newNode = none := by
        simpa [hasNode] using hnode
      obtain ⟨self', hrun, hholds⟩ := enqueue_spec hrep hcopy hne hunused data
      exact ⟨_, self', hrun, rfl, hholds⟩
  | dequeue =>
      obtain ⟨self', hrun, hholds⟩ := dequeue_spec hrep hcopy
      exact ⟨_, self', hrun, rfl, hholds⟩
  | peek =>
      refine ⟨_, self, ?_, rfl, hsame⟩
      rw [run, peek_spec hrep]
      rfl
  | peekRear =>
      refine ⟨_, self, ?_, rfl, hsame⟩
      rw [run, peekRear_spec hrep]
      rfl
  | size =>
      refine ⟨_, self, rfl, ⟨_, rfl, ?_⟩, hsame⟩
      rw [hrep.size, GenericQueueSyn.size_eq_length, List.length_map]
  | isEmpty =>
      refine ⟨_, self, rfl, ?_, hsame⟩
      rw [Observes, isEmpty_of_represents hrep]
      cases d.items <;> rfl
  | contains target compare =>
      refine ⟨_, self, ?_, rfl, hsame⟩
      rw [run, contains_spec hrep]
      rfl
  | forEach =>
      refine ⟨_, self, ?_, rfl, hsame⟩
      rw [run, forEach_spec hrep]
      rfl

end

/-! ### The runs -/

/-- The abstract queue after one more event. -/
theorem contentsOf_append (tr : List (Event α)) (e : Event α) :
    contentsOf (tr ++ [e]) = applyEvent (contentsOf tr) e := by
  rw [contentsOf, List.foldl_append]
  rfl

/-- The returned elements after one more event. -/
theorem returnedFrom_append (q : GenericQueueSyn (Option α)) (tr : List (Event α)) (e : Event α) :
    returnedFrom q (tr ++ [e]) = returnedFrom q tr ++ returnedBy (tr.foldl applyEvent q) e := by
  induction tr generalizing q with
  | nil =>
      show returnedBy q e ++ [] = [] ++ returnedBy q e
      rw [List.append_nil, List.nil_append]
  | cons e' tr ih =>
      show returnedBy q e' ++ returnedFrom (applyEvent q e') (tr ++ [e]) = _
      rw [ih, ← List.append_assoc]
      rfl

/-- The enqueued elements of a thread, in the order of its sections. -/
def enqueuedOf (t : Nat) (l : List (Nat × Option α)) : List (Option α) :=
  (l.filter fun x => x.1 == t).map Prod.snd

/-- The element that a thread is about to enqueue. -/
def pending : Option (Operation α) → List (Option α)
  | some (.enqueue data) => [data]
  | _ => []

/-- What holds after a run. -/
structure QueueInv (tr : List (Event α)) (s : State α) : Prop where
  holds : Holds (contentsOf tr) s.queue
  fifo : returned tr ++ contentsOf tr = (enqueued tr).map Prod.snd
  answers : ∀ pre t operation answer post, tr = pre ++ .done t operation answer :: post →
    Observes (contentsOf pre) operation answer
  calls : ∀ t, enqueueCalls t tr = enqueuedOf t (enqueued tr) ++ pending (s.pc t)

/-- A call changes neither the queue nor its history. -/
theorem QueueInv.call {tr : List (Event α)} {s : State α} (h : QueueInv tr s) {t : Nat}
    (hpc : s.pc t = none) (operation : Operation α) :
    QueueInv (tr ++ [.called t operation])
      { s with pc := Function.update s.pc t (some operation) } := by
  have hcontents : contentsOf (tr ++ [.called t operation]) = contentsOf tr :=
    contentsOf_append tr _
  have henqueued : enqueued (tr ++ [.called t operation]) = enqueued tr := by
    rw [enqueued, List.filterMap_append]
    exact List.append_nil _
  refine ⟨by rw [hcontents]; exact h.holds, ?_, ?_, ?_⟩
  · rw [returned, returnedFrom_append, hcontents, henqueued]
    show returned tr ++ [] ++ contentsOf tr = _
    rw [List.append_nil]
    exact h.fifo
  · intro pre t' operation' answer post htr
    have htr' : tr ++ (some (Event.called t operation)).toList
        = pre ++ .done t' operation' answer :: post := htr
    rcases append_toList_eq_append_cons htr' with ⟨post', rfl, -⟩ | ⟨he, -, -⟩
    · exact h.answers pre t' operation' answer post' rfl
    · cases he
  · intro t'
    have hold := h.calls t'
    rw [henqueued, enqueueCalls, List.filterMap_append]
    show enqueueCalls t' tr ++ [Event.called t operation].filterMap (enqueueCall t')
      = _ ++ pending (Function.update s.pc t (some operation) t')
    by_cases ht : t' = t
    · subst ht
      rw [hpc] at hold
      rw [hold, Function.update_self]
      cases operation <;> simp [enqueueCall, pending]
    · rw [hold, Function.update_of_ne ht]
      cases operation <;> simp [enqueueCall, Ne.symm ht]

/-- A section is one step of the abstract queue. -/
theorem QueueInv.lockSection {tr : List (Event α)} {s : State α} (h : QueueInv tr s) {t : Nat}
    {operation : Operation α} (hpc : s.pc t = some operation) {answer : Answer α}
    {queue : GenericQueue α} (hobserves : Observes (contentsOf tr) operation answer)
    (hholds : Holds (applyOperation (contentsOf tr) operation) queue) :
    QueueInv (tr ++ [.done t operation answer]) ⟨queue, Function.update s.pc t none⟩ := by
  have hcontents : contentsOf (tr ++ [.done t operation answer])
      = applyOperation (contentsOf tr) operation := by
    rw [contentsOf_append]
    cases operation <;> rfl
  refine ⟨by rw [hcontents]; exact hholds, ?_, ?_, ?_⟩
  · have hfifo := h.fifo
    rw [returned, returnedFrom_append, hcontents, enqueued, List.filterMap_append, List.map_append]
    show returned tr ++ returnedBy (contentsOf tr) _ ++ _ = (enqueued tr).map Prod.snd ++ _
    rw [← hfifo]
    cases operation with
    | enqueue data => simp [returnedBy, applyOperation, enqueuedBy]
    | dequeue =>
        rw [show answer = _ from hobserves]
        cases hq : contentsOf tr with
        | nil => simp [returnedBy, applyOperation, enqueuedBy]
        | cons data rest => simp [returnedBy, applyOperation, enqueuedBy]
    | _ => simp [returnedBy, applyOperation, enqueuedBy]
  · intro pre t' operation' answer' post htr
    have htr' : tr ++ (some (Event.done t operation answer)).toList
        = pre ++ .done t' operation' answer' :: post := htr
    rcases append_toList_eq_append_cons htr' with ⟨post', rfl, -⟩ | ⟨he, rfl, -⟩
    · exact h.answers pre t' operation' answer' post' rfl
    · cases he
      exact hobserves
  · intro t'
    have hold := h.calls t'
    have hcalls : enqueueCalls t' (tr ++ [.done t operation answer]) = enqueueCalls t' tr := by
      rw [enqueueCalls, List.filterMap_append]
      exact List.append_nil _
    have henqueued : enqueued (tr ++ [.done t operation answer])
        = enqueued tr ++ [Event.done t operation answer].filterMap enqueuedBy :=
      List.filterMap_append ..
    rw [hcalls, hold, henqueued]
    show _ = enqueuedOf t' _ ++ pending (Function.update s.pc t none t')
    by_cases ht : t' = t
    · subst ht
      rw [hpc, Function.update_self]
      cases operation <;> simp [pending, enqueuedBy, enqueuedOf]
    · rw [Function.update_of_ne ht]
      cases operation <;> simp [enqueuedBy, enqueuedOf, Ne.symm ht]

/-- `QueueInv` holds in every run. -/
theorem queueInv_of_run {guards : Guards} {tr : List (Event α)} {s : State α}
    (h : (machine α guards).Run tr s) : QueueInv tr s := by
  refine h.induction ?_ ?_
  · refine ⟨⟨.new guards, GenericLinkedList.represents_new guards, rfl, rfl⟩, rfl, ?_, fun _ => rfl⟩
    intro pre t operation answer post htr
    simp at htr
  · intro tr s a s' e _ hinv _ hnext
    cases a with
    | call t operation =>
        simp only [machine, Option.ite_none_right_eq_some, Option.some.injEq, Prod.mk.injEq,
          Option.isNone_iff_eq_none] at hnext
        obtain ⟨hpc, rfl, rfl⟩ := hnext
        exact hinv.call hpc operation
    | lockSection t newNode =>
        simp only [machine, Option.bind_eq_some_iff, Option.ite_none_right_eq_some,
          Option.map_eq_some_iff, Prod.mk.injEq] at hnext
        obtain ⟨operation, hpc, hnode, ⟨answer, queue⟩, hrun, rfl, rfl⟩ := hnext
        obtain ⟨answer', queue', hrun', hobserves, hholds⟩ := run_spec hinv.holds hnode
        rw [hrun] at hrun'
        obtain ⟨rfl, rfl⟩ := Prod.mk.inj (Option.some.inj hrun')
        exact hinv.lockSection hpc hobserves hholds

/-- The synchronised queue is a linearisable FIFO. After every run, the queue on the heap holds the
abstract queue that the operations give in the order of their sections. What `dequeue` returned,
followed by the contents, is what was enqueued. Every operation observed the abstract queue at its
section. The elements of a thread came out in the order of its calls, and a thread that has called
an operation can run its section. -/
theorem queue_linearisable {guards : Guards} {tr : List (Event α)} {s : State α}
    (h : (machine α guards).Run tr s) :
    Holds (contentsOf tr) s.queue ∧
    returned tr ++ contentsOf tr = (enqueued tr).map Prod.snd ∧
    (∀ pre t operation answer post, tr = pre ++ .done t operation answer :: post →
      Observes (contentsOf pre) operation answer) ∧
    (∀ t, enqueuedOf t ((enqueued tr).take (returned tr).length) <+: enqueueCalls t tr) ∧
    ∀ t operation newNode, s.pc t = some operation → hasNode s.queue newNode operation = true →
      (run s.queue newNode operation).isSome := by
  have hinv := queueInv_of_run h
  refine ⟨hinv.holds, hinv.fifo, hinv.answers, ?_, ?_⟩
  · intro t
    have hprefix : enqueuedOf t ((enqueued tr).take (returned tr).length)
        <+: enqueuedOf t (enqueued tr) :=
      ((List.take_prefix _ _).filter _).map _
    rw [hinv.calls t]
    exact hprefix.trans (List.prefix_append _ _)
  · intro t operation newNode _ hnode
    obtain ⟨answer, queue, hrun, -⟩ := run_spec hinv.holds hnode
    rw [hrun]
    rfl

/-- The answer of an event. -/
def Event.answer : Event α → Option (Answer α)
  | .done _ _ answer => some answer
  | _ => none

/-- Two threads call `enqueue`, the later one runs first, and a third thread looks at the queue. -/
def twoProducers : List (Action Nat) :=
  [.call 0 (.enqueue (some 5)), .call 1 (.enqueue (some 6)), .lockSection 1 10, .lockSection 0 11,
   .call 2 .peekRear, .lockSection 2 0, .call 2 (.contains (some 5) fun a b => if a = b then 0 else 1),
   .lockSection 2 0, .call 2 .dequeue, .lockSection 2 0, .call 2 .size, .lockSection 2 0]

/-- The rear is 5, which is in the queue, and `dequeue` gives 6 first. -/
theorem queue_linearisable_twoProducers :
    ∃ tr s, (machine Nat GenericLinkedList.someGuards).Run tr s ∧
      tr.filterMap Event.answer =
        [.code 0, .code 0, .data 0 (some 5), .code 1, .data 0 (some 6), .size 0 1] ∧
      returned tr ++ contentsOf tr = (enqueued tr).map Prod.snd := by
  obtain ⟨tr, s, hrun, hp⟩ := Machine.run_of_exec (M := machine Nat GenericLinkedList.someGuards)
    twoProducers (fun tr _ => decide (tr.filterMap Event.answer =
      [.code 0, .code 0, .data 0 (some 5), .code 1, .data 0 (some 6), .size 0 1]))
    (by decide +kernel)
  exact ⟨tr, s, hrun, of_decide_eq_true hp, (queue_linearisable hrun).2.1⟩

end Miez.GenericQueue
