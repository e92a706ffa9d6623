import Mathlib
import Miez.Construction

/-!
# `Miez.Proofs.Construction`: constructors and destructors under every pattern of failures

The containers and the pool. A constructor is all or nothing: whichever of its calls fails, also in
the constructors that it calls, it releases what it has made so far. `generic_hash_table_new` is the
exception, and `genericHashTableNew_leaks` says what it leaves. A destructor releases the blocks of
its object, and no block twice.

The blocks of an object are a sum over its parts. So a part is dealt with by the result about its
own constructor or destructor, and what is left is a sum that `abel` puts into order.
-/

set_option autoImplicit false

namespace Miez.Proofs.Construction

open Miez.Lib
open Miez.Lib.Script
open Miez.Construction

/-! ### Lists and queues -/

/-- The blocks of a list with `size` nodes. -/
def listBlocks (size : Nat) : Multiset ListBlock :=
  {.self} + {.headGuard} + {.tailGuard} + numbered (fun i => {.node i}) 0 size

/-- The blocks of a queue with `size` nodes. -/
def queueBlocks (size : Nat) : Multiset QueueBlock := {.self} + (listBlocks size).map .list

/-- The blocks of a synchronised queue with `size` nodes. -/
def queueSynBlocks (size : Nat) : Multiset QueueSynBlock :=
  {.self} + (queueBlocks size).map .queue + {.mutex}

section
variable {ρ α : Type} [DecidableEq ρ]

/-- The loop of `generic_linked_list_free` frees the data and the nodes. -/
theorem freeNodes_clears {freeFunction : α → Script ρ Unit} {owns : α → Multiset ρ}
    (block : ListBlock → ρ) (data : List α) (hfree : ∀ a ∈ data, Clears (freeFunction a) (owns a))
    (i : Nat) :
    Clears (freeNodes freeFunction block i data)
      ((data.map owns).sum + numbered (fun j => {block (.node j)}) i data.length) := by
  induction data generalizing i with
  | nil => exact Clears.pure ()
  | cons a rest ih =>
      have hrest := ih (fun b hb => hfree b (List.mem_cons_of_mem a hb)) (i + 1)
      have hnode := (clears_release (block (.node i))).seq hrest
      have hall := (hfree a List.mem_cons_self).seq hnode
      refine hall.congr ?_
      rw [List.map_cons, List.sum_cons, List.length_cons, numbered_succ]
      abel

/-- `generic_linked_list_free` releases the list and what the free function releases. -/
theorem genericLinkedListFree_clears {freeFunction : α → Script ρ Unit} {owns : α → Multiset ρ}
    (block : ListBlock → ρ) (data : List α)
    (hfree : ∀ a ∈ data, Clears (freeFunction a) (owns a)) :
    Clears (genericLinkedListFree freeFunction block data)
      ((data.map owns).sum + (listBlocks data.length).map block) := by
  unfold genericLinkedListFree
  have hall := (freeNodes_clears block data hfree 0).seq
    (clears_releaseAll [block .headGuard, block .tailGuard, block .self])
  refine hall.congr ?_
  simp only [listBlocks, Multiset.map_add, Multiset.map_singleton, map_numbered,
    coe_cons, Multiset.coe_nil]
  abel

/-- `generic_queue_free` releases the queue and what the free function releases. -/
theorem genericQueueFree_clears {freeFunction : α → Script ρ Unit} {owns : α → Multiset ρ}
    (block : QueueBlock → ρ) (data : List α)
    (hfree : ∀ a ∈ data, Clears (freeFunction a) (owns a)) :
    Clears (genericQueueFree freeFunction block data)
      ((data.map owns).sum + (queueBlocks data.length).map block) := by
  have hlist := genericLinkedListFree_clears (fun b => block (.list b)) data hfree
  unfold genericQueueFree
  refine (hlist.seq (clears_release (block .self))).congr ?_
  simp only [queueBlocks, Multiset.map_add, Multiset.map_singleton, Multiset.map_map,
    Function.comp_def]
  abel

/-- `generic_queue_syn_free` releases the queue and what the free function releases. -/
theorem genericQueueSynFree_clears {freeFunction : α → Script ρ Unit} {owns : α → Multiset ρ}
    (block : QueueSynBlock → ρ) (data : List α)
    (hfree : ∀ a ∈ data, Clears (freeFunction a) (owns a)) :
    Clears (genericQueueSynFree freeFunction block data)
      ((data.map owns).sum + (queueSynBlocks data.length).map block) := by
  intro frame
  have hqueue := genericQueueFree_clears (fun b => block (.queue b)) data hfree
  have hheld : (data.map owns).sum + (queueSynBlocks data.length).map block + frame =
      ((data.map owns).sum + (queueBlocks data.length).map fun b => block (.queue b)) +
        ({block .mutex} + {block .self} + frame) := by
    simp only [queueSynBlocks, Multiset.map_add, Multiset.map_singleton, Multiset.map_map,
      Function.comp_def]
    abel
  rw [hheld]
  unfold genericQueueSynFree
  refine Safe.use (by simp) ?_
  refine Safe.clear hqueue rfl fun _ => ?_
  refine Safe.use (by simp) ?_
  have hlast := clears_releaseAll [block .mutex, block .self] frame
  exact hlast

/-- A list without a free function leaves its data alone. -/
theorem noFreeFunction_clears (data : List α) :
    ∀ a ∈ data, Clears (noFreeFunction a : Script ρ Unit) 0 := fun _ _ => Clears.pure ()

/-- `generic_linked_list_free` on a list without a free function. -/
theorem genericLinkedListFree_nodes (block : ListBlock → ρ) (data : List α) :
    Clears (genericLinkedListFree noFreeFunction block data)
      ((listBlocks data.length).map block) := by
  refine (genericLinkedListFree_clears block data (noFreeFunction_clears data)).congr ?_
  rw [List.map_const', List.sum_replicate, smul_zero, zero_add]

/-- `generic_queue_syn_free` on an empty queue. -/
theorem genericQueueSynFree_empty (block : QueueSynBlock → ρ) :
    Clears (genericQueueSynFree noFreeFunction block ([] : List Unit))
      ((queueSynBlocks 0).map block) := by
  refine (genericQueueSynFree_clears block [] (noFreeFunction_clears [])).congr ?_
  rw [List.map_nil, List.sum_nil, List.length_nil, zero_add]

end

/-- `generic_linked_list_new` is all or nothing. -/
theorem genericLinkedListNew_allOrNothing : AllOrNothing genericLinkedListNew (listBlocks 0) := by
  unfold genericLinkedListNew
  refine Safe.acquire_if ?_ ?_
  · refine Safe.acquire ?_ ?_
    · refine Safe.acquire ?_ ?_
      · refine Safe.pure (Or.inl ⟨rfl, ?_⟩)
        rw [listBlocks, numbered_zero]
        abel
      · intro tailGuard htail
        simp only [htail, ne_eq, not_true_eq_false, not_false_eq_true, or_true, if_true, if_false]
        exact Safe.undo (clears_releaseAll _) (by simp [coe_cons]) (by decide)
    · intro headGuard hhead
      refine Safe.acquire ?_ ?_
      · simp only [hhead, ne_eq, not_true_eq_false, not_false_eq_true, true_or, if_true, if_false]
        exact Safe.undo (clears_releaseAll _) (by simp [coe_cons]) (by decide)
      · intro tailGuard htail
        simp only [hhead, htail, ne_eq, not_false_eq_true, true_or, if_true, if_false]
        exact Safe.undo (clears_releaseAll _) (by simp [coe_cons]) (by decide)
  · intro self hself
    exact Safe.pure (Or.inr ⟨by decide, rfl⟩)

/-- `generic_queue_new` is all or nothing. -/
theorem genericQueueNew_allOrNothing : AllOrNothing genericQueueNew (queueBlocks 0) := by
  unfold genericQueueNew
  refine Safe.acquire_if ?_ fun self hself => Safe.pure (Or.inr ⟨by decide, rfl⟩)
  refine Safe.construct_if genericLinkedListNew_allOrNothing (fun _ _ h => QueueBlock.list.inj h)
    ?_ fun code hcode => Safe.undo (clears_release _) (add_zero _) hcode
  refine Safe.pure (Or.inl ⟨rfl, ?_⟩)
  unfold queueBlocks
  abel

/-- `generic_queue_syn_new` is all or nothing. -/
theorem genericQueueSynNew_allOrNothing :
    AllOrNothing genericQueueSynNew (queueSynBlocks 0) := by
  unfold genericQueueSynNew
  refine Safe.acquire_if ?_ fun self hself => Safe.pure (Or.inr ⟨by decide, rfl⟩)
  refine Safe.construct_if genericQueueNew_allOrNothing (fun _ _ h => QueueSynBlock.queue.inj h)
    ?_ fun code hcode => Safe.undo (clears_release _) (add_zero _) (by decide)
  refine Safe.acquire_if ?_ fun code hcode => ?_
  · refine Safe.pure (Or.inl ⟨rfl, ?_⟩)
    unfold queueSynBlocks
    abel
  · have hqueue := genericQueueFree_clears QueueSynBlock.queue ([] : List Unit)
      (noFreeFunction_clears _)
    refine Safe.clear hqueue ?_ fun _ => Safe.undo (clears_release _) (add_zero _) (by decide)
    simp only [List.map_nil, List.sum_nil, List.length_nil]
    abel

/-! ### The thread pool -/

/-- The blocks of a pool whose queue holds `tasks` tasks. -/
def poolBlocks (nThreads tasks : Nat) : Multiset PoolBlock :=
  {PoolBlock.self} + (queueSynBlocks tasks).map .queueSyn + {PoolBlock.mutexMemory} +
    {PoolBlock.mutex} + {PoolBlock.newTaskMemory} + {PoolBlock.newTask} +
    {PoolBlock.taskDoneMemory} + {PoolBlock.taskDone} + {PoolBlock.dispatcherThreads} +
    numbered (fun i => {PoolBlock.thread i}) 0 nThreads +
    numbered (fun i => {PoolBlock.task i}) 0 tasks

/-- The end of an error path of `thread_pool_new`. -/
theorem undoPool_clears (blocks : List PoolBlock) :
    Clears (undoPool blocks)
      ((blocks : Multiset PoolBlock) + ((queueSynBlocks 0).map .queueSyn + {.self})) := by
  have hqueue := genericQueueSynFree_empty PoolBlock.queueSyn
  unfold undoPool
  exact (clears_releaseAll blocks).seq (hqueue.seq (clears_release _))

/-- The dispatchers are woken up through a mutex and a condition variable that exist. -/
theorem wakeDispatchers_safe {held : Multiset PoolBlock} (hmutex : .mutex ∈ held)
    (hnewTask : .newTask ∈ held) :
    Safe wakeDispatchers held fun _ held' => held' = held := by
  unfold wakeDispatchers
  exact Safe.use hmutex (Safe.use hnewTask (safe_use hmutex))

/-- The blocks of a pool without its threads. -/
def poolBase : Multiset PoolBlock :=
  {PoolBlock.dispatcherThreads} + {PoolBlock.taskDone} + {PoolBlock.taskDoneMemory} +
    {PoolBlock.newTask} + {PoolBlock.newTaskMemory} + {PoolBlock.mutex} + {PoolBlock.mutexMemory} +
    (queueSynBlocks 0).map .queueSyn + {PoolBlock.self}

/-- The loop of `thread_pool_new`: all threads are created, or those created are joined and the
pool is released. -/
theorem createThreads_safe (i rest : Nat) :
    Safe (createThreads i rest) (numbered (fun j => {.thread j}) 0 i + poolBase) fun code held =>
      (code = 0 ∧ held = numbered (fun j => {.thread j}) 0 (i + rest) + poolBase) ∨
        (code ≠ 0 ∧ held = 0) := by
  induction rest generalizing i with
  | zero => exact Safe.pure (Or.inl ⟨rfl, rfl⟩)
  | succ rest ih =>
      unfold createThreads
      refine Safe.acquire_if ?_ fun code hcode => ?_
      · have hnext := ih (i + 1)
        rw [numbered_snoc, Nat.zero_add] at hnext
        have hheld : ({.thread i} + (numbered (fun j => {.thread j}) 0 i + poolBase) :
            Multiset PoolBlock) = numbered (fun j => {.thread j}) 0 i + {.thread i} + poolBase := by
          abel
        rw [hheld, show i + (rest + 1) = i + 1 + rest by omega]
        exact hnext
      · refine (wakeDispatchers_safe (by simp [poolBase]) (by simp [poolBase])).bind ?_
        rintro - held rfl
        have hjoin := clears_releaseAll ((List.range i).map PoolBlock.thread)
        rw [coe_map_range] at hjoin
        refine Safe.clear hjoin rfl fun _ => ?_
        refine Safe.undo (undoPool_clears _) ?_ hcode
        simp only [poolBase, coe_cons, Multiset.coe_nil]
        abel

/-- An error path of `thread_pool_new` releases what is held. -/
theorem undoPool_safe {post : Multiset PoolBlock} {held : Multiset PoolBlock} {code : Int}
    (blocks : List PoolBlock)
    (hheld : held = (blocks : Multiset PoolBlock) +
      ((queueSynBlocks 0).map PoolBlock.queueSyn + {.self})) (hcode : code ≠ 0) :
    Safe (undoPool blocks >>= fun _ => pure code) held fun code held =>
      (code = 0 ∧ held = post) ∨ (code ≠ 0 ∧ held = 0) := by
  rw [hheld]
  exact Safe.undo (undoPool_clears blocks) rfl hcode

/-- `thread_pool_new` is all or nothing: whatever call fails, also the creation of one of the
threads, what was made before is released, and each thread is joined. -/
theorem threadPoolNew_allOrNothing (nThreads : Nat) (hthreads : nThreads ≠ 0) :
    AllOrNothing (threadPoolNew nThreads) (poolBlocks nThreads 0) := by
  rw [threadPoolNew, if_neg hthreads]
  refine Safe.acquire_if ?_ fun self hself => Safe.pure (Or.inr ⟨by decide, rfl⟩)
  refine Safe.construct_if genericQueueSynNew_allOrNothing
    (fun _ _ h => PoolBlock.queueSyn.inj h) ?_ fun code hcode =>
      Safe.undo (clears_release _) (add_zero _) hcode
  refine Safe.acquire_if ?_ fun mutexMemory hmutexMemory => undoPool_safe _ ?_ (by decide)
  refine Safe.acquire_if ?_ fun code hcode => undoPool_safe _ ?_ hcode
  refine Safe.acquire_if ?_ fun newTaskMemory hnewTaskMemory => undoPool_safe _ ?_ (by decide)
  refine Safe.acquire_if ?_ fun code hcode => undoPool_safe _ ?_ hcode
  refine Safe.acquire_if ?_ fun taskDoneMemory htaskDoneMemory => undoPool_safe _ ?_ (by decide)
  refine Safe.acquire_if ?_ fun code hcode => undoPool_safe _ ?_ hcode
  refine Safe.acquire_if ?_ fun threads hdispatcherThreads => undoPool_safe _ ?_ (by decide)
  · have hloop := createThreads_safe 0 nThreads
    have hbase : numbered (fun j => ({PoolBlock.thread j} : Multiset PoolBlock)) 0 0 + poolBase =
        {PoolBlock.dispatcherThreads} + ({PoolBlock.taskDone} + ({PoolBlock.taskDoneMemory} +
          ({PoolBlock.newTask} + ({PoolBlock.newTaskMemory} + ({PoolBlock.mutex} +
            ({PoolBlock.mutexMemory} +
              ((queueSynBlocks 0).map .queueSyn + ({PoolBlock.self} + 0)))))))) := by
      rw [numbered_zero, poolBase]
      abel
    rw [hbase] at hloop
    refine hloop.mono ?_
    intro code held hend
    cases hend with
    | inl hdone =>
        obtain ⟨hcode, hheld⟩ := hdone
        refine Or.inl ⟨hcode, ?_⟩
        rw [hheld, poolBlocks, poolBase, numbered_zero, Nat.zero_add]
        abel
    | inr hfailed => exact Or.inr hfailed
  all_goals
    simp only [coe_cons, Multiset.coe_nil]
    abel

/-- The loop of `thread_pool_free` releases the tasks that are left, and their nodes. -/
theorem freeTasks_safe (i tasks : Nat) {frame : Multiset PoolBlock}
    (hmutex : .queueSyn .mutex ∈ frame) :
    Safe (freeTasks i tasks)
      (numbered (fun j => {.queueSyn (.queue (.list (.node j)))}) i tasks +
        numbered (fun j => {.task j}) i tasks + frame) fun _ held => held = frame := by
  induction tasks generalizing i with
  | zero => exact Safe.pure (by simp)
  | succ tasks ih =>
      unfold freeTasks
      refine Safe.use (Multiset.mem_add.mpr (Or.inr hmutex)) ?_
      refine Safe.release (k := numbered (fun j => {.queueSyn (.queue (.list (.node j)))}) (i + 1)
        tasks + {.task i} + numbered (fun j => {.task j}) (i + 1) tasks + frame) ?_ ?_
      · simp only [numbered_succ]
        abel
      · refine Safe.release ?_ (ih (i + 1))
        abel

/-- `thread_pool_free` joins the threads and releases the pool with the tasks that are left. -/
theorem threadPoolFree_clears (nThreads tasks : Nat) :
    Clears (threadPoolFree nThreads tasks) (poolBlocks nThreads tasks) := by
  intro frame
  unfold threadPoolFree
  have hmutex : PoolBlock.mutex ∈ poolBlocks nThreads tasks + frame := by simp [poolBlocks]
  have hnewTask : PoolBlock.newTask ∈ poolBlocks nThreads tasks + frame := by simp [poolBlocks]
  refine (wakeDispatchers_safe hmutex hnewTask).bind ?_
  intro _ held hheld
  have hjoin := clears_releaseAll ((List.range nThreads).map PoolBlock.thread)
  rw [coe_map_range] at hjoin
  have hqueue := genericQueueSynFree_empty PoolBlock.queueSyn
  have hlocks := clears_releaseAll [PoolBlock.mutex, .mutexMemory, .newTask, .newTaskMemory,
    .taskDone, .taskDoneMemory]
  have hlast := clears_releaseAll [PoolBlock.dispatcherThreads, .self]
  have hrest := (hlocks.seq (hqueue.seq hlast)) frame
  -- what is held after the join: the nodes and the tasks, and the rest
  have hsplit : poolBlocks nThreads tasks + frame =
      numbered (fun i => {PoolBlock.thread i}) 0 nThreads +
        (numbered (fun j => {PoolBlock.queueSyn (.queue (.list (.node j)))}) 0 tasks +
          numbered (fun j => {PoolBlock.task j}) 0 tasks +
          ((([.mutex, .mutexMemory, .newTask, .newTaskMemory, .taskDone, .taskDoneMemory] :
              List PoolBlock) : Multiset PoolBlock) +
            ((queueSynBlocks 0).map PoolBlock.queueSyn +
              (([.dispatcherThreads, .self] : List PoolBlock) : Multiset PoolBlock)) + frame)) := by
    simp only [poolBlocks, queueSynBlocks, queueBlocks, listBlocks, Multiset.map_add,
      Multiset.map_singleton, map_numbered, coe_cons, Multiset.coe_nil, numbered_zero]
    abel
  rw [hheld, hsplit]
  refine Safe.clear hjoin rfl fun _ => ?_
  refine (freeTasks_safe 0 tasks (by simp [queueSynBlocks])).bind ?_
  intro _ held' hheld'
  rw [hheld']
  exact hrest

/-! ### The hash table -/

/-- The blocks of the bucket `i` with `size` nodes. -/
def bucketBlocks (i size : Nat) : Multiset TableBlock :=
  (listBlocks size).map (.bucket i) + {TableBlock.mutex i}

/-- The blocks of a table with `sizes i` nodes in the bucket `i`, without its pairs. -/
def tableBlocks (capacity : Nat) (sizes : Nat → Nat) : Multiset TableBlock :=
  {TableBlock.self} + {TableBlock.buckets} + {TableBlock.mutexes} +
    numbered (fun i => bucketBlocks i (sizes i)) 0 capacity

/-- The loop of `generic_hash_table_new` that takes back the buckets made so far. -/
theorem freeBuckets_clears (j count : Nat) :
    Clears (freeBuckets j count) (numbered (fun i => bucketBlocks i 0) j count) := by
  induction count generalizing j with
  | zero => exact Clears.pure ()
  | succ count ih =>
      have hlist := genericLinkedListFree_nodes (TableBlock.bucket j) ([] : List Unit)
      unfold freeBuckets
      refine (hlist.seq ((clears_release (.mutex j)).seq (ih (j + 1)))).congr ?_
      rw [numbered_succ, bucketBlocks, List.length_nil]
      abel

/-- An error path of the loop of `generic_hash_table_new`. -/
theorem undoTable_safe (i : Nat) {blocks : Multiset TableBlock} :
    Safe (freeBuckets 0 i >>= fun _ => releaseAll [.mutexes, .buckets, .self] >>= fun _ =>
      pure (-1)) (tableBlocks i fun _ => 0) fun code held =>
        (code = 0 ∧ held = blocks) ∨ (code ≠ 0 ∧ held = 0) := by
  have hheld : tableBlocks i (fun _ => 0) = numbered (fun i => bucketBlocks i 0) 0 i +
      (([.mutexes, .buckets, .self] : List TableBlock) : Multiset TableBlock) := by
    simp only [tableBlocks, coe_cons, Multiset.coe_nil]
    abel
  refine Safe.clear (freeBuckets_clears 0 i) hheld fun _ => ?_
  exact Safe.undo (clears_releaseAll _) rfl (by decide)

/-- The loop of `generic_hash_table_new`: all buckets are made, or all is released. -/
theorem createBuckets_safe (i rest : Nat) :
    Safe (createBuckets i rest) (tableBlocks i fun _ => 0) fun code held =>
      (code = 0 ∧ held = tableBlocks (i + rest) fun _ => 0) ∨ (code ≠ 0 ∧ held = 0) := by
  induction rest generalizing i with
  | zero => exact Safe.pure (Or.inl ⟨rfl, rfl⟩)
  | succ rest ih =>
      have hbucket : bucketBlocks i 0 + tableBlocks i (fun _ => 0) =
          tableBlocks (i + 1) fun _ => 0 := by
        rw [tableBlocks, tableBlocks, numbered_snoc, Nat.zero_add]
        abel
      unfold createBuckets
      refine Safe.construct_if genericLinkedListNew_allOrNothing
        (fun _ _ h => (TableBlock.bucket.inj h).2) ?_ fun code hcode => ?_
      · refine Safe.acquire_if ?_ fun code hcode => ?_
        · have hheld : {TableBlock.mutex i} +
              ((listBlocks 0).map (TableBlock.bucket i) + tableBlocks i fun _ => 0) =
                tableBlocks (i + 1) fun _ => 0 := by
            rw [← hbucket, bucketBlocks]
            abel
          rw [hheld, show i + (rest + 1) = i + 1 + rest by omega]
          exact ih (i + 1)
        · have hlist := genericLinkedListFree_clears (TableBlock.bucket i) ([] : List Unit)
            (noFreeFunction_clears _)
          rw [List.map_nil, List.sum_nil, List.length_nil, zero_add] at hlist
          refine Safe.clear hlist rfl fun _ => ?_
          exact undoTable_safe i
      · exact undoTable_safe i

/-- `generic_hash_table_new` under the codes `codes` of its calls. It makes the whole table, or it
fails and leaves what it should have released: `self` when the array of the buckets cannot be
allocated, and `self` and this array when the array of the mutexes cannot be allocated. When any
other call fails, nothing is left. -/
theorem genericHashTableNew_leaks (capacity : Nat) (hcapacity : capacity ≠ 0)
    (codes : Nat → Int) :
    ∃ code held codes', (genericHashTableNew capacity).run 0 codes = some (code, held, codes') ∧
      ((code = 0 ∧ held = tableBlocks capacity fun _ => 0) ∨
        (code ≠ 0 ∧ held =
          if codes 0 ≠ 0 then 0
          else if codes 1 ≠ 0 then {.self}
          else if codes 2 ≠ 0 then {.self} + {.buckets}
          else 0)) := by
  rw [genericHashTableNew, if_neg hcapacity, run_acquire]
  by_cases hself : codes 0 = 0
  swap
  · rw [if_pos hself, if_neg hself, if_pos hself]
    exact ⟨-1, 0, _, rfl, Or.inr ⟨by decide, rfl⟩⟩
  rw [if_neg (not_not.mpr hself), if_pos hself, if_neg (not_not.mpr hself), run_acquire]
  by_cases hbuckets : codes 1 = 0
  swap
  · rw [if_pos hbuckets, if_neg hbuckets, if_pos hbuckets]
    exact ⟨-1, {.self}, _, rfl, Or.inr ⟨by decide, rfl⟩⟩
  rw [if_neg (not_not.mpr hbuckets), if_pos hbuckets, if_neg (not_not.mpr hbuckets), run_acquire]
  by_cases hmutexes : codes 2 = 0
  swap
  · rw [if_pos hmutexes, if_neg hmutexes, if_pos hmutexes]
    refine ⟨-1, _, _, rfl, Or.inr ⟨by decide, ?_⟩⟩
    rw [add_comm]
    rfl
  rw [if_neg (not_not.mpr hmutexes), if_pos hmutexes, if_neg (not_not.mpr hmutexes)]
  obtain ⟨code, held, codes', hrun, hend⟩ := createBuckets_safe 0 capacity fun i => codes (i + 3)
  rw [Nat.zero_add] at hend
  refine ⟨code, held, codes', ?_, hend⟩
  rw [← hrun]
  congr 1
  simp only [tableBlocks, numbered_zero, add_zero, ← Multiset.singleton_add]
  abel

/-- `genericHashTableNew_leaks` without the codes. -/
theorem genericHashTableNew_safe (capacity : Nat) (hcapacity : capacity ≠ 0) :
    Safe (genericHashTableNew capacity) 0 fun code held =>
      (code = 0 ∧ held = tableBlocks capacity fun _ => 0) ∨
        (code ≠ 0 ∧ (held = 0 ∨ held = {TableBlock.self} ∨
          held = {TableBlock.self} + {TableBlock.buckets})) := by
  intro codes
  obtain ⟨code, held, codes', hrun, hend⟩ := genericHashTableNew_leaks capacity hcapacity codes
  refine ⟨code, held, codes', hrun, hend.imp_right fun hfailed => ⟨hfailed.1, ?_⟩⟩
  rw [hfailed.2]
  split_ifs
  · exact Or.inl rfl
  · exact Or.inr (Or.inl rfl)
  · exact Or.inr (Or.inr rfl)
  · exact Or.inl rfl

section
variable {ρ α : Type} [DecidableEq ρ]

/-- The pairs of the bucket `i`, and what their keys and values own. -/
def pairBlocks (owns : α → Multiset ρ) (block : TableBlock → ρ) (pairs : Nat → List α) (i : Nat) :
    Multiset ρ :=
  ((pairs i).map owns).sum + numbered (fun j => {block (.pair i j)}) 0 (pairs i).length

/-- The loop of `generic_hash_table_free` over the pairs of a bucket. -/
theorem freePairs_clears {freePair : α → Script ρ Unit} {owns : α → Multiset ρ}
    (block : TableBlock → ρ) (i j : Nat) (pairs : List α)
    (hfree : ∀ pair ∈ pairs, Clears (freePair pair) (owns pair)) :
    Clears (freePairs freePair block i j pairs)
      ((pairs.map owns).sum + numbered (fun l => {block (.pair i l)}) j pairs.length) := by
  induction pairs generalizing j with
  | nil => exact Clears.pure ()
  | cons pair rest ih =>
      have hrest := ih (j + 1) fun pair hpair => hfree pair (List.mem_cons_of_mem _ hpair)
      unfold freePairs
      refine ((hfree pair List.mem_cons_self).seq
        ((clears_release (block (.pair i j))).seq hrest)).congr ?_
      rw [List.map_cons, List.sum_cons, List.length_cons, numbered_succ]
      abel

/-- What is left of a table when the buckets in `failed` had no iterator. -/
def leftPairs (owns : α → Multiset ρ) (block : TableBlock → ρ) (pairs : Nat → List α)
    (failed : Nat → Bool) (i count : Nat) : Multiset ρ :=
  numbered (fun j => if failed j then pairBlocks owns block pairs j else 0) i count

/-- The end of a round of the loop of `generic_hash_table_free`. -/
theorem freeBucketEnd_safe {β : Type} (block : TableBlock → ρ) (i : Nat) (pairs : List α)
    {next : Script ρ β} {held k : Multiset ρ} {post : β → Multiset ρ → Prop}
    (hheld : held = (bucketBlocks i pairs.length).map block + k)
    (hnext : Safe next k post) :
    Safe (genericLinkedListFree noFreeFunction (fun b => block (.bucket i b)) pairs >>= fun _ =>
      Script.use (block (.mutex i)) >>= fun _ => release (block (.mutex i)) >>= fun _ => next)
      held post := by
  have hlist := genericLinkedListFree_nodes (fun b => block (.bucket i b)) pairs
  have hsplit : held = (listBlocks pairs.length).map (fun b => block (.bucket i b)) +
      ({block (.mutex i)} + k) := by
    rw [hheld, bucketBlocks, Multiset.map_add, Multiset.map_map, Multiset.map_singleton, add_assoc]
    rfl
  refine Safe.clear hlist hsplit fun _ => ?_
  refine Safe.use (by simp) ?_
  exact Safe.release rfl hnext

omit [DecidableEq ρ] in
/-- The failures of a loop whose first round is known. -/
theorem leftPairs_cons (owns : α → Multiset ρ) (block : TableBlock → ρ) (pairs : Nat → List α)
    (failed : Nat → Bool) (first : Bool) (i count : Nat) :
    leftPairs owns block pairs (Function.update failed i first) i (count + 1) =
      (if first then pairBlocks owns block pairs i else 0) +
        leftPairs owns block pairs failed (i + 1) count := by
  rw [leftPairs, numbered_succ, Function.update_self, leftPairs]
  congr 1
  refine numbered_congr fun j hle hlt => ?_
  rw [Function.update_of_ne (by omega)]

omit [DecidableEq ρ] in
/-- One more round of the loop of `generic_hash_table_free`: what is left and the error. -/
theorem exists_failed {owns : α → Multiset ρ} {block : TableBlock → ρ} {pairs : Nat → List α}
    {failed : Nat → Bool} {held frame : Multiset ρ} {code error firstError : Int} {i count : Nat}
    (first : Bool)
    (hheld : held = leftPairs owns block pairs failed (i + 1) count +
      ((if first then pairBlocks owns block pairs i else 0) + frame))
    (hcode : code = 0 ↔ error = 0 ∧ ∀ j, i + 1 ≤ j → j < i + 1 + count → failed j = false)
    (herror : error = 0 ↔ firstError = 0 ∧ first = false) :
    ∃ failed : Nat → Bool, held = leftPairs owns block pairs failed i (count + 1) + frame ∧
      (code = 0 ↔ firstError = 0 ∧ ∀ j, i ≤ j → j < i + (count + 1) → failed j = false) := by
  refine ⟨Function.update failed i first, ?_, ?_⟩
  · rw [hheld, leftPairs_cons]
    abel
  · rw [hcode, herror]
    constructor
    · intro h
      refine ⟨h.1.1, fun j hle hlt => ?_⟩
      by_cases hj : j = i
      · rw [hj, Function.update_self]
        exact h.1.2
      · rw [Function.update_of_ne hj]
        exact h.2 j (by omega) (by omega)
    · intro h
      have hi := h.2 i le_rfl (by omega)
      rw [Function.update_self] at hi
      refine ⟨⟨h.1, hi⟩, fun j hle hlt => ?_⟩
      have hj := h.2 j (by omega) (by omega)
      rw [Function.update_of_ne (by omega)] at hj
      exact hj

/-- The loop of `generic_hash_table_free`. Only the pairs of the buckets without an iterator are
left, and the error is kept when there is such a bucket. -/
theorem freeTableBuckets_safe {freePair : α → Script ρ Unit} {owns : α → Multiset ρ}
    (block : TableBlock → ρ) (pairs : Nat → List α)
    (hfree : ∀ i, ∀ pair ∈ pairs i, Clears (freePair pair) (owns pair)) (i count : Nat)
    (firstError : Int) (frame : Multiset ρ) :
    Safe (freeTableBuckets freePair block pairs i firstError count)
      (numbered (fun j => (bucketBlocks j (pairs j).length).map block) i count +
        numbered (pairBlocks owns block pairs) i count + frame)
      fun code held => ∃ failed : Nat → Bool,
        held = leftPairs owns block pairs failed i count + frame ∧
        (code = 0 ↔ firstError = 0 ∧ ∀ j, i ≤ j → j < i + count → failed j = false) := by
  induction count generalizing i firstError frame with
  | zero =>
      refine Safe.pure ⟨fun _ => false, ?_, ?_⟩
      · simp [leftPairs]
      · refine ⟨fun h => ⟨h, fun j hle hlt => ?_⟩, fun h => h.1⟩
        omega
  | succ count ih =>
      have hmutex : block (.mutex i) ∈ numbered (fun j => (bucketBlocks j (pairs j).length).map
          block) i (count + 1) + numbered (pairBlocks owns block pairs) i (count + 1) + frame := by
        simp [numbered_succ, bucketBlocks]
      have hpairs : Clears (freePairs freePair block i 0 (pairs i))
          (pairBlocks owns block pairs i) := freePairs_clears block i 0 (pairs i) (hfree i)
      unfold freeTableBuckets
      refine Safe.use hmutex ?_
      refine Safe.acquire_if ?_ fun code hcode => ?_
      · -- the pairs of the bucket are freed
        refine Safe.clear (k := {block .iterator} +
          ((bucketBlocks i (pairs i).length).map block +
            (numbered (fun j => (bucketBlocks j (pairs j).length).map block) (i + 1) count +
              numbered (pairBlocks owns block pairs) (i + 1) count + frame))) hpairs ?_ fun _ => ?_
        · simp only [numbered_succ]
          abel
        refine Safe.release rfl ?_
        refine freeBucketEnd_safe block i (pairs i) rfl ?_
        refine (ih (i + 1) firstError frame).mono ?_
        rintro code held ⟨failed, hheld, hcode⟩
        refine exists_failed false ?_ hcode (by simp)
        rw [hheld, if_neg Bool.false_ne_true, zero_add]
      · -- there is no iterator, and the pairs stay
        refine freeBucketEnd_safe block i (pairs i) (k := numbered (fun j =>
          (bucketBlocks j (pairs j).length).map block) (i + 1) count +
            numbered (pairBlocks owns block pairs) (i + 1) count +
              (pairBlocks owns block pairs i + frame)) ?_ ?_
        · simp only [numbered_succ]
          abel
        · refine (ih (i + 1) _ _).mono ?_
          rintro code held ⟨failed, hheld, hcode⟩
          refine exists_failed true ?_ hcode ?_
          · rw [hheld, if_pos rfl]
          · split_ifs <;> simp_all

/-- `generic_hash_table_free` releases the table and its pairs. The pairs of the buckets whose
iterator could not be allocated are left, and the code is 0 when there is no such bucket. -/
theorem genericHashTableFree_safe {freePair : α → Script ρ Unit} {owns : α → Multiset ρ}
    (block : TableBlock → ρ) (capacity : Nat) (pairs : Nat → List α)
    (hfree : ∀ i, ∀ pair ∈ pairs i, Clears (freePair pair) (owns pair)) (frame : Multiset ρ) :
    Safe (genericHashTableFree freePair block capacity pairs)
      ((tableBlocks capacity fun i => (pairs i).length).map block +
        numbered (pairBlocks owns block pairs) 0 capacity + frame)
      fun code held => ∃ failed : Nat → Bool,
        held = leftPairs owns block pairs failed 0 capacity + frame ∧
        (code = 0 ↔ ∀ i < capacity, failed i = false) := by
  have hloop := freeTableBuckets_safe block pairs hfree 0 capacity 0
    ((([block .buckets, block .mutexes, block .self] : List ρ) : Multiset ρ) + frame)
  have hheld : (tableBlocks capacity fun i => (pairs i).length).map block +
      numbered (pairBlocks owns block pairs) 0 capacity + frame =
        numbered (fun j => (bucketBlocks j (pairs j).length).map block) 0 capacity +
          numbered (pairBlocks owns block pairs) 0 capacity +
            ((([block .buckets, block .mutexes, block .self] : List ρ) : Multiset ρ) + frame) := by
    simp only [tableBlocks, Multiset.map_add, Multiset.map_singleton, map_numbered, coe_cons,
      Multiset.coe_nil]
    abel
  unfold genericHashTableFree
  rw [hheld]
  refine hloop.bind ?_
  rintro code held ⟨failed, hleft, hcode⟩
  refine Safe.clear (clears_releaseAll _) (k := leftPairs owns block pairs failed 0 capacity +
    frame) ?_ fun _ => Safe.pure ⟨failed, rfl, ?_⟩
  · rw [hleft]
    abel
  · rw [hcode]
    simp

end

end Miez.Proofs.Construction
