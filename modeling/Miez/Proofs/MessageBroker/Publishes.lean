import Miez.Proofs.MessageBroker.Steps
import Miez.Proofs.ThreadPool.Conservation

/-!
# `Miez.Proofs.MessageBroker.Publishes`: from the call of a publish to its task

`poolRun_of_run` finds the run of the pool inside a run of the broker, so the theorems about the
pool hold for the broker's pool. `PublishInv` follows the argument of a publish from the step
that takes its id to the task in the queue: no two tasks carry the same publish. `TaskInv` says
that `_publisher_task` runs only on a dispatcher, with the argument of the task that the
dispatcher has called.
-/

set_option autoImplicit false

namespace Miez.Proofs.MessageBroker

open Miez.Lib
open Miez.MessageBroker
open Miez.ThreadPool (Tid PoolTask)
open Miez.Proofs.ThreadPool

section
variable {n : Nat} {capacity : UInt64} {hcap : capacity ≠ 0}

/-! ### The pool inside the broker -/

/-- The event of the pool. -/
def poolEvent : Event n → Option (ThreadPool.Event n PublisherTaskArg)
  | .pool e => some e
  | _ => none

/-- What the pool has shown. -/
def poolTrace (tr : List (Event n)) : List (ThreadPool.Event n PublisherTaskArg) :=
  tr.filterMap poolEvent

/-- The argument of the publish whose call the event shows. -/
def publishCallArg : Event n → Option PublisherTaskArg
  | .publishCall _ arg => some arg
  | _ => none

/-- The publishes that took an id, in this order. -/
def publishCalls (tr : List (Event n)) : List PublisherTaskArg := tr.filterMap publishCallArg

/-- The argument of a publish that has its id and has not entered the pool. -/
def publishArg : Pc → Option PublisherTaskArg
  | .publish arg => some arg
  | _ => none

/-- The argument of the task that the thread runs. -/
def taskArg : Pc → Option PublisherTaskArg
  | .publisherTask arg _ => some arg
  | _ => none

/-- What a step of a thread has to do with publishes: it is the call of a publish, or nothing. -/
inductive PublishStep (t : Tid n) (sh : Shared n) (pc : Pc) (sh' : Shared n) (pc' : Pc)
    (e : Option (Event n)) : Prop where
  | call (c : Nat) (name content : CString) (ht : t = .client c) (hpc : pc = .idle)
      (hpc' : pc' = .publish ⟨sh.nextMessageId, name, content, sh.nextPublish⟩)
      (he : e = some (.publishCall c ⟨sh.nextMessageId, name, content, sh.nextPublish⟩))
      (hid : sh'.nextMessageId = sh.nextMessageId + 1)
      (hnext : sh'.nextPublish = sh.nextPublish + 1)
  | other (hpool : e.bind poolEvent = none) (he : e.bind publishCallArg = none)
      (hpc : pc ≠ .inPool) (hpc' : pc' ≠ .inPool) (harg : publishArg pc = none)
      (harg' : publishArg pc' = none)
      (htask : ∀ arg, taskArg pc' = some arg → taskArg pc = some arg)
      (hid : sh'.nextMessageId = sh.nextMessageId) (hnext : sh'.nextPublish = sh.nextPublish)

/-- A step of a thread is one of the steps of `PublishStep`. -/
theorem ThreadStep.publishStep {t : Tid n} {sh sh' : Shared n} {pc pc' : Pc}
    {e : Option (Event n)} (h : ThreadStep t sh pc sh' pc' e) :
    PublishStep t sh pc sh' pc' e := by
  cases h with
  | callPublish c ht name content => exact .call c name content ht rfl rfl rfl rfl rfl
  | taskMore hg =>
      cases hg <;> exact .other rfl rfl (by simp) (by simp) rfl rfl (fun _ h => h) rfl rfl
  | taskFound hg =>
      cases hg
      exact .other rfl rfl (by simp) (by simp) rfl rfl (fun _ h => h) rfl rfl
  | subscribeMore hg =>
      cases hg <;> exact .other rfl rfl (by simp) (by simp) rfl rfl (fun _ h => h) rfl rfl
  | subscribeFound hg =>
      cases hg
      exact .other rfl rfl (by simp) (by simp) rfl rfl (fun _ h => h) rfl rfl
  | taskUnlock ch => exact .other rfl rfl (by simp) (by simp) rfl rfl (by rintro _ ⟨⟩) rfl rfl
  | unsubscribeInactive hret =>
      rcases hret with ⟨rfl, rfl⟩ | ⟨rfl, rfl⟩ <;>
        exact .other rfl rfl (by simp) (by simp) rfl rfl (fun _ h => h) rfl rfl
  | clearProxy hret =>
      rcases hret with ⟨rfl, rfl⟩ | ⟨rfl, rfl⟩ <;>
        exact .other rfl rfl (by simp) (by simp) rfl rfl (fun _ h => h) rfl rfl
  | receiveRead hret =>
      rcases hret with ⟨r', rfl, rfl⟩ | ⟨rfl, rfl⟩ <;>
        exact .other rfl rfl (by simp) (by simp) rfl rfl (fun _ h => h) rfl rfl
  | receiveInbox x p hp hinbox hret =>
      rcases hret with ⟨r', rfl, rfl⟩ | ⟨rfl, rfl⟩ <;>
        exact .other rfl rfl (by simp) (by simp) rfl rfl (fun _ h => h) rfl rfl
  | pendingRead hret =>
      rcases hret with ⟨rfl, rfl⟩ | ⟨rfl, count, rfl⟩ <;>
        exact .other rfl rfl (by simp) (by simp) rfl rfl (fun _ h => h) rfl rfl
  | _ => exact .other rfl rfl (by simp) (by simp) rfl rfl (fun _ h => h) rfl rfl

/-- A thread inside a broker function shows nothing of the pool. -/
theorem PublishStep.poolEvent_eq_none {t : Tid n} {sh sh' : Shared n} {pc pc' : Pc}
    {e : Option (Event n)} (h : PublishStep t sh pc sh' pc' e) : e.bind poolEvent = none := by
  cases h with
  | call c name content ht hpc hpc' he hid hnext => rw [he]; rfl
  | other hpool he hpc hpc' harg harg' htask hid hnext => exact hpool

/-- The event of a step of the pool, seen from the pool. -/
theorem poolEvent_map (e : Option (ThreadPool.Event n PublisherTaskArg)) :
    (e.map Event.pool).bind poolEvent = e := by
  cases e <;> rfl

/-- The event of a step of the pool is not the call of a publish. -/
theorem publishCallArg_map (e : Option (ThreadPool.Event n PublisherTaskArg)) :
    (e.map Event.pool).bind publishCallArg = none := by
  cases e <;> rfl

/-- What the pool has shown after a step of the pool. -/
theorem poolTrace_append_pool (tr : List (Event n))
    (e : Option (ThreadPool.Event n PublisherTaskArg)) :
    poolTrace (tr ++ (e.map Event.pool).toList) = poolTrace tr ++ e.toList := by
  rw [poolTrace, filterMap_append_toList, poolEvent_map]
  rfl

/-- What the pool has shown after a step of a thread. -/
theorem poolTrace_append_thread {tr : List (Event n)} {e : Option (Event n)}
    (he : e.bind poolEvent = none) : poolTrace (tr ++ e.toList) = poolTrace tr :=
  filterMap_append_of_none he tr

/-- The pool inside a run of the broker has a run of its own. -/
theorem poolRun_of_run {tr : List (Event n)} {s : State n}
    (h : (machine n capacity hcap).RunIf AllocationsSucceed tr s) :
    (ThreadPool.machine n PublisherTaskArg).Run (poolTrace tr) s.pool := by
  refine invariant_of_run (I := fun tr s =>
    (ThreadPool.machine n PublisherTaskArg).Run (poolTrace tr) s.pool) .nil ?_ ?_
    (fun _ _ _ hinv => hinv) h
  · intro tr s b pool t pc e _ hinv hstep _ _
    rw [poolTrace_append_pool]
    exact hinv.snoc trivial hstep.next
  · intro tr s t sh pc e _ hinv hstep
    rw [poolTrace_append_thread hstep.publishStep.poolEvent_eq_none]
    exact hinv

/-! ### The argument of a publish on its way into the queue -/

/-- The argument of a submit that has not put its task into the queue. -/
def submitArg : ThreadPool.ClientPc PublisherTaskArg → Option PublisherTaskArg
  | .submit (.loadOff arg) | .submit (.malloc arg) | .submit (.enqueue arg) => some arg
  | _ => none

/-- What a step of a client inside the pool does with the argument of its submit: it keeps it,
puts it into the queue, or drops it. Only an idle client takes one. -/
theorem clientFunction_submitArg {c : Nat} {exited : Fin n → Bool}
    {sh sh' : ThreadPool.Shared n PublisherTaskArg}
    {pc pc' : ThreadPool.ClientPc PublisherTaskArg}
    {move : ThreadPool.ClientMove n PublisherTaskArg}
    {e : Option (ThreadPool.Event n PublisherTaskArg)}
    (h : ThreadPool.clientFunction c exited sh pc move = some (sh', pc', e)) :
    (∀ arg, submitArg pc' = some arg → submitArg pc = some arg ∨
      (pc = .idle ∧ move = .callSubmit arg)) ∧
    (∀ task, e.bind enqueuedTask = some task →
      submitArg pc = some task.arg ∧ submitArg pc' = none) ∧
    (pc = .idle → pc' ≠ .idle ∧ e.bind enqueuedTask = none) := by
  cases pc with
  | idle =>
      cases move <;> grind [ThreadPool.clientFunction, submitArg, enqueuedTask]
  | submit pc =>
      cases pc <;> cases move <;>
        grind [ThreadPool.clientFunction, ThreadPool.threadPoolSubmit, submitArg, enqueuedTask,
          ThreadPool.Shared.lock, ThreadPool.Shared.signalNewTask]
  | wait pc =>
      cases pc <;> cases move <;>
        grind [ThreadPool.clientFunction, ThreadPool.threadPoolWait, submitArg, enqueuedTask,
          ThreadPool.Shared.lock]
  | shutdown pc =>
      cases pc <;> cases move <;>
        grind [ThreadPool.clientFunction, ThreadPool.threadPoolShutdown, submitArg, enqueuedTask,
          ThreadPool.Shared.lock]

/-- The argument of a publish of the client `c` that is not in the queue yet. -/
def pendingArg (s : State n) (c : Nat) : Option PublisherTaskArg :=
  (publishArg (s.pc (.client c))).or (submitArg (s.pool.client c))

/-- A client is inside the pool, in the eyes of the broker, when the pool says so. -/
def InPoolInv (s : State n) : Prop :=
  ∀ c, s.pc (.client c) = .inPool ↔ s.pool.client c ≠ .idle

/-- A step of the pool keeps `InPoolInv`. A publish that is not in the queue after the step was
not there before, and a task that goes into the queue carries such a publish. -/
theorem PoolStep.pendingArg {s : State n} {b : ThreadPool.Action n PublisherTaskArg}
    {pool : ThreadPool.State n PublisherTaskArg} {t : Tid n} {pc₀ : Pc}
    {e : Option (ThreadPool.Event n PublisherTaskArg)} (h : PoolStep s b pool t pc₀ e)
    (hin : InPoolInv s) :
    InPoolInv ⟨pool, s.shared, Function.update s.pc t pc₀, s.faulted⟩ ∧
    (∀ c arg, pendingArg ⟨pool, s.shared, Function.update s.pc t pc₀, s.faulted⟩ c = some arg →
      pendingArg s c = some arg) ∧
    (∀ task, e.bind enqueuedTask = some task → ∃ c, pendingArg s c = some task.arg ∧
      pendingArg ⟨pool, s.shared, Function.update s.pc t pc₀, s.faulted⟩ c = none) := by
  cases h with
  | @dispatcher d sh pc e hidle hf =>
      have hkeep : ∀ c, Function.update s.pc (.dispatcher d) (dispatcherPc e) (.client c)
          = s.pc (.client c) := by
        intro c
        exact Function.update_of_ne (by simp) _ _
      refine ⟨?_, ?_, ?_⟩
      · intro c
        show Function.update s.pc (.dispatcher d) (dispatcherPc e) (.client c) = .inPool ↔ _
        rw [hkeep]
        exact hin c
      · intro c arg harg
        simp only [MessageBroker.pendingArg, hkeep] at harg
        exact harg
      · intro task htask
        rw [dispatcherFunction_enqueued hf] at htask
        cases htask
  | @client c move sh pc e pc₀ hf hpc =>
      obtain ⟨hsub, henq, hidle⟩ := clientFunction_submitArg hf
      -- The other clients do not move.
      have hother : ∀ c', c' ≠ c → Function.update s.pc (.client c) pc₀ (.client c')
            = s.pc (.client c') ∧
          Function.update s.pool.client c pc c' = s.pool.client c' := by
        intro c' hc'
        refine ⟨Function.update_of_ne ?_ _ _, Function.update_of_ne hc' _ _⟩
        intro heq
        exact hc' (by simpa using heq)
      have hpc₀ : pc₀ = .inPool ↔ pc ≠ .idle := by
        rcases hpc with ⟨arg, hold, rfl, rfl⟩ | ⟨hold, rfl, rfl⟩ | ⟨hold, rfl⟩
        · have hpool : s.pool.client c = .idle := by
            by_contra hne
            rw [(hin c).mpr hne] at hold
            cases hold
          exact iff_of_true rfl (hidle hpool).1
        · have hpool : s.pool.client c = .idle := by
            by_contra hne
            rw [(hin c).mpr hne] at hold
            cases hold
          exact iff_of_true rfl (hidle hpool).1
        · by_cases hpc : pc = .idle
          · rw [if_pos hpc]
            exact iff_of_false (by simp) (by simpa using hpc)
          · rw [if_neg hpc]
            exact iff_of_true rfl hpc
      have hnew : publishArg pc₀ = none := by
        rcases hpc with ⟨arg, hold, rfl, rfl⟩ | ⟨hold, rfl, rfl⟩ | ⟨hold, rfl⟩
        · rfl
        · rfl
        · split <;> rfl
      refine ⟨?_, ?_, ?_⟩
      · intro c'
        show Function.update s.pc (.client c) pc₀ (.client c') = .inPool ↔
          Function.update s.pool.client c pc c' ≠ .idle
        by_cases hc' : c' = c
        · subst hc'
          rw [Function.update_self, Function.update_self]
          exact hpc₀
        · rw [(hother c' hc').1, (hother c' hc').2]
          exact hin c'
      · intro c' arg harg
        by_cases hc' : c' = c
        · subst hc'
          simp only [MessageBroker.pendingArg, Function.update_self, hnew, Option.none_or] at harg
          rcases hsub arg harg with hold | ⟨hpool, rfl⟩
          · -- A client inside a submit is at `inPool`.
            have hpub : s.pc (.client c') = .inPool := by
              rw [hin c']
              intro hpool
              rw [hpool] at hold
              cases hold
            rw [MessageBroker.pendingArg, hpub]
            exact hold
          · rcases hpc with ⟨arg', hold, heq, rfl⟩ | ⟨hold, heq, rfl⟩ | ⟨hold, -⟩
            · obtain rfl : arg = arg' := by simpa using heq
              rw [MessageBroker.pendingArg, hold]
              rfl
            · cases heq
            · exact absurd hpool ((hin c').mp hold)
        · simp only [MessageBroker.pendingArg, hother c' hc'] at harg
          exact harg
      · intro task htask
        obtain ⟨hold, hnone⟩ := henq task htask
        have hpub : s.pc (.client c) = .inPool := by
          rw [hin c]
          intro hpool
          rw [hpool] at hold
          cases hold
        refine ⟨c, ?_, ?_⟩
        · rw [MessageBroker.pendingArg, hpub]
          exact hold
        · simp only [MessageBroker.pendingArg, Function.update_self, hnew, hnone]
          rfl

/-- The numbers of the publishes whose task has gone into the queue. -/
def enqueuedPublishes (tr : List (Event n)) : List Nat :=
  (enqueuedTasks (poolTrace tr)).map fun task => task.arg.publish

/-- Publishes are numbered by their calls, and their ids follow the numbers. A publish is with
one client until its task goes into the queue, and no publish goes there twice. -/
structure PublishInv (tr : List (Event n)) (s : State n) : Prop where
  nextId : s.shared.nextMessageId = UInt64.ofNat (s.shared.nextPublish + 1)
  calls : (publishCalls tr).map PublisherTaskArg.publish = List.range s.shared.nextPublish
  ids : ∀ arg ∈ publishCalls tr, arg.messageId = UInt64.ofNat (arg.publish + 1)
  inPool : InPoolInv s
  pending : ∀ c arg, pendingArg s c = some arg →
    arg ∈ publishCalls tr ∧ arg.publish ∉ enqueuedPublishes tr
  pendingUnique : ∀ c c' arg arg', pendingArg s c = some arg → pendingArg s c' = some arg' →
    arg.publish = arg'.publish → c = c'
  enqueued : ∀ task ∈ enqueuedTasks (poolTrace tr), task.arg ∈ publishCalls tr
  nodup : (enqueuedPublishes tr).Nodup

/-- A step of the pool keeps `PublishInv`. -/
theorem publishInv_pool {tr : List (Event n)} {s : State n} (hinv : PublishInv tr s)
    {b : ThreadPool.Action n PublisherTaskArg} {pool : ThreadPool.State n PublisherTaskArg}
    {t : Tid n} {pc : Pc} {e : Option (ThreadPool.Event n PublisherTaskArg)}
    (hstep : PoolStep s b pool t pc e) :
    PublishInv (tr ++ (e.map Event.pool).toList)
      ⟨pool, s.shared, Function.update s.pc t pc, s.faulted⟩ := by
  obtain ⟨hin, hkeep, henq⟩ := hstep.pendingArg hinv.inPool
  have hcalls : publishCalls (tr ++ (e.map Event.pool).toList) = publishCalls tr :=
    filterMap_append_of_none (publishCallArg_map e) tr
  have htasks : enqueuedTasks (poolTrace (tr ++ (e.map Event.pool).toList))
      = enqueuedTasks (poolTrace tr) ++ (e.bind enqueuedTask).toList := by
    rw [poolTrace_append_pool]
    exact filterMap_append_toList enqueuedTask _ e
  refine ⟨hinv.nextId, ?_, ?_, hin, ?_, ?_, ?_, ?_⟩
  · rw [hcalls]
    exact hinv.calls
  · rw [hcalls]
    exact hinv.ids
  · intro c arg harg
    obtain ⟨hmem, hnot⟩ := hinv.pending c arg (hkeep c arg harg)
    rw [hcalls, enqueuedPublishes, htasks]
    refine ⟨hmem, ?_⟩
    rw [List.map_append, List.mem_append]
    rintro (hold | hnew)
    · exact hnot hold
    · -- The publish that goes into the queue is no longer with a client.
      obtain ⟨task, htask, hpublish⟩ := List.mem_map.mp hnew
      obtain ⟨c', hold, hnone⟩ := henq task (by simpa using htask)
      obtain rfl := hinv.pendingUnique c c' arg task.arg (hkeep c arg harg) hold hpublish.symm
      rw [hnone] at harg
      cases harg
  · intro c c' arg arg' h h' heq
    exact hinv.pendingUnique c c' arg arg' (hkeep c arg h) (hkeep c' arg' h') heq
  · intro task htask
    rw [htasks, List.mem_append] at htask
    rw [hcalls]
    rcases htask with htask | htask
    · exact hinv.enqueued task htask
    · obtain ⟨c, hold, -⟩ := henq task (by simpa using htask)
      exact (hinv.pending c task.arg hold).1
  · rw [enqueuedPublishes, htasks, List.map_append]
    refine List.nodup_append.mpr ⟨hinv.nodup, ?_, ?_⟩
    · cases e.bind enqueuedTask <;> simp
    · intro p hp q hq heq
      obtain ⟨task, htask, hpublish⟩ := List.mem_map.mp hq
      obtain ⟨c, hold, -⟩ := henq task (by simpa using htask)
      exact (hinv.pending c task.arg hold).2 (by rw [hpublish, ← heq]; exact hp)

/-- A step of a thread keeps `PublishInv`. -/
theorem publishInv_thread {tr : List (Event n)} {s : State n} (hinv : PublishInv tr s)
    {t : Tid n} {sh : Shared n} {pc : Pc} {e : Option (Event n)}
    (hstep : PublishStep t s.shared (s.pc t) sh pc e) :
    PublishInv (tr ++ e.toList) ⟨s.pool, sh, Function.update s.pc t pc, s.faulted⟩ := by
  have hpool : poolTrace (tr ++ e.toList) = poolTrace tr :=
    poolTrace_append_thread hstep.poolEvent_eq_none
  have hpublishes : enqueuedPublishes (tr ++ e.toList) = enqueuedPublishes tr := by
    rw [enqueuedPublishes, hpool]
    rfl
  cases hstep with
  | call c name content ht hpc hpc' he hid hnext =>
      subst ht hpc'
      have hcalls : publishCalls (tr ++ e.toList) = publishCalls tr
          ++ [⟨s.shared.nextMessageId, name, content, s.shared.nextPublish⟩] :=
        filterMap_append_of_some (by rw [he]; rfl) tr
      -- The number of the new publish is larger than the numbers of the old ones.
      have hlt : ∀ arg ∈ publishCalls tr, arg.publish < s.shared.nextPublish := by
        intro arg harg
        have hmem := List.mem_map_of_mem (f := PublisherTaskArg.publish) harg
        rw [hinv.calls] at hmem
        exact List.mem_range.mp hmem
      have hidle : s.pool.client c = .idle := by
        by_contra hne
        rw [(hinv.inPool c).mpr hne] at hpc
        cases hpc
      have hback : ∀ c' arg, pendingArg ⟨s.pool, sh, Function.update s.pc (.client c)
            (.publish ⟨s.shared.nextMessageId, name, content, s.shared.nextPublish⟩),
            s.faulted⟩ c' = some arg →
          (c' = c ∧ arg = ⟨s.shared.nextMessageId, name, content, s.shared.nextPublish⟩) ∨
          (c' ≠ c ∧ pendingArg s c' = some arg) := by
        intro c' arg harg
        by_cases hc' : c' = c
        · subst hc'
          simp only [pendingArg, Function.update_self, publishArg, Option.some_or,
            Option.some.injEq] at harg
          exact Or.inl ⟨rfl, harg.symm⟩
        · have hne : (Tid.client c' : Tid n) ≠ .client c := by simpa using hc'
          simp only [pendingArg, Function.update_of_ne hne] at harg
          exact Or.inr ⟨hc', harg⟩
      refine ⟨?_, ?_, ?_, ?_, ?_, ?_, ?_, ?_⟩
      · show sh.nextMessageId = UInt64.ofNat (sh.nextPublish + 1)
        rw [hid, hnext, hinv.nextId]
        simp
      · show (publishCalls (tr ++ e.toList)).map PublisherTaskArg.publish
          = List.range sh.nextPublish
        rw [hcalls, hnext, List.map_append, hinv.calls, List.range_succ]
        rfl
      · intro arg harg
        rw [hcalls, List.mem_append, List.mem_singleton] at harg
        rcases harg with harg | rfl
        · exact hinv.ids arg harg
        · exact hinv.nextId
      · intro c'
        show Function.update s.pc (.client c) _ (.client c') = .inPool ↔ s.pool.client c' ≠ .idle
        by_cases hc' : c' = c
        · subst hc'
          rw [Function.update_self]
          exact iff_of_false (by simp) (by simpa using hidle)
        · have hne : (Tid.client c' : Tid n) ≠ .client c := by simpa using hc'
          rw [Function.update_of_ne hne]
          exact hinv.inPool c'
      · intro c' arg harg
        rw [hcalls, hpublishes]
        rcases hback c' arg harg with ⟨-, rfl⟩ | ⟨-, harg⟩
        · refine ⟨List.mem_append_right _ (List.mem_singleton_self _), ?_⟩
          intro hmem
          obtain ⟨task, htask, hpublish⟩ := List.mem_map.mp hmem
          have h := hlt task.arg (hinv.enqueued task htask)
          exact absurd hpublish (Nat.ne_of_lt h)
        · obtain ⟨hmem, hnot⟩ := hinv.pending c' arg harg
          exact ⟨List.mem_append_left _ hmem, hnot⟩
      · intro c₁ c₂ arg₁ arg₂ h₁ h₂ heq
        rcases hback c₁ arg₁ h₁ with ⟨hc₁, harg₁⟩ | ⟨hc₁, h₁⟩ <;>
          rcases hback c₂ arg₂ h₂ with ⟨hc₂, harg₂⟩ | ⟨hc₂, h₂⟩
        · rw [hc₁, hc₂]
        · subst harg₁
          exact absurd heq.symm (Nat.ne_of_lt (hlt arg₂ (hinv.pending c₂ arg₂ h₂).1))
        · subst harg₂
          exact absurd heq (Nat.ne_of_lt (hlt arg₁ (hinv.pending c₁ arg₁ h₁).1))
        · exact hinv.pendingUnique c₁ c₂ arg₁ arg₂ h₁ h₂ heq
      · intro task htask
        rw [hpool] at htask
        rw [hcalls]
        exact List.mem_append_left _ (hinv.enqueued task htask)
      · rw [hpublishes]
        exact hinv.nodup
  | other hevent he hpc hpc' harg harg' htask hid hnext =>
      have hcalls : publishCalls (tr ++ e.toList) = publishCalls tr :=
        filterMap_append_of_none he tr
      have hpending : ∀ c, pendingArg ⟨s.pool, sh, Function.update s.pc t pc, s.faulted⟩ c
          = pendingArg s c := by
        intro c
        show (publishArg (Function.update s.pc t pc (.client c))).or _ = _
        by_cases hc : .client c = t
        · subst hc
          rw [Function.update_self, harg', pendingArg, harg]
        · rw [Function.update_of_ne hc]
          rfl
      refine ⟨?_, ?_, ?_, ?_, ?_, ?_, ?_, ?_⟩
      · show sh.nextMessageId = UInt64.ofNat (sh.nextPublish + 1)
        rw [hid, hnext]
        exact hinv.nextId
      · show (publishCalls (tr ++ e.toList)).map PublisherTaskArg.publish
          = List.range sh.nextPublish
        rw [hcalls, hnext]
        exact hinv.calls
      · rw [hcalls]
        exact hinv.ids
      · intro c
        show Function.update s.pc t pc (.client c) = .inPool ↔ s.pool.client c ≠ .idle
        by_cases hc : .client c = t
        · subst hc
          rw [Function.update_self, ← hinv.inPool c]
          exact iff_of_false hpc' hpc
        · rw [Function.update_of_ne hc]
          exact hinv.inPool c
      · intro c arg h
        rw [hcalls, hpublishes]
        exact hinv.pending c arg (hpending c ▸ h)
      · intro c c' arg arg' h h'
        exact hinv.pendingUnique c c' arg arg' (hpending c ▸ h) (hpending c' ▸ h')
      · intro task htask
        rw [hpool] at htask
        rw [hcalls]
        exact hinv.enqueued task htask
      · rw [hpublishes]
        exact hinv.nodup

/-- `PublishInv` holds in every state of a run. -/
theorem publishInv_of_run {tr : List (Event n)} {s : State n}
    (h : (machine n capacity hcap).RunIf AllocationsSucceed tr s) : PublishInv tr s := by
  refine invariant_of_run (I := PublishInv) ?_ ?_ ?_ ?_ h
  · refine ⟨rfl, rfl, ?_, ?_, ?_, ?_, ?_, List.nodup_nil⟩
    · intro arg harg
      cases harg
    · intro c
      exact iff_of_false (by simp [init]) (by simp [init, ThreadPool.init])
    · intro c arg harg
      cases harg
    · intro c c' arg arg' harg
      cases harg
    · intro task htask
      cases htask
  · intro tr s b pool t pc e _ hinv hstep _ _
    exact publishInv_pool hinv hstep
  · intro tr s t sh pc e _ hinv hstep
    exact publishInv_thread hinv hstep.publishStep
  · intro tr s t hinv
    exact ⟨hinv.1, hinv.2, hinv.3, hinv.4, hinv.5, hinv.6, hinv.7, hinv.8⟩

/-- The calls of publishes have different numbers. -/
theorem publishCalls_nodup {tr : List (Event n)} {s : State n} (hinv : PublishInv tr s) :
    ((publishCalls tr).map PublisherTaskArg.publish).Nodup := by
  rw [hinv.calls]
  exact List.nodup_range

/-- Two tasks with the same publish are the same task. -/
theorem PublishInv.task_unique {tr : List (Event n)} {s : State n} (hinv : PublishInv tr s)
    {task task' : PoolTask PublisherTaskArg} (h : task ∈ enqueuedTasks (poolTrace tr))
    (h' : task' ∈ enqueuedTasks (poolTrace tr)) (heq : task.arg.publish = task'.arg.publish) :
    task = task' :=
  List.inj_on_of_nodup_map hinv.nodup h h' heq

/-! ### The task of a publish -/

/-- `_publisher_task` runs on a dispatcher that has called the task with this argument. -/
def TaskInv (s : State n) : Prop :=
  ∀ t arg, taskArg (s.pc t) = some arg →
    ∃ d task, t = .dispatcher d ∧ s.pool.dispatcher d = .running task ∧ task.arg = arg

/-- A dispatcher that calls a task runs it afterwards. -/
theorem dispatcherFunction_running {d : Fin n} {sh sh' : ThreadPool.Shared n PublisherTaskArg}
    {pc pc' : ThreadPool.DispatcherPc PublisherTaskArg}
    {e : Option (ThreadPool.Event n PublisherTaskArg)}
    (h : ThreadPool.dispatcherFunction d sh pc = some (sh', pc', e)) :
    (∀ task, pc' = .running task ↔ e = some (.called d task)) ∧
    (∀ d' task, e = some (.called d' task) → d' = d) ∧
    (∀ d' task, e = some (.returned d' task) → d' = d ∧ pc = .running task) := by
  cases pc <;> grind [ThreadPool.dispatcherFunction, ThreadPool.Shared.lock]

/-- A dispatcher is in `_publisher_task` after the call of a task's function. -/
theorem called_of_dispatcherPc {e : Option (ThreadPool.Event n PublisherTaskArg)}
    {arg : PublisherTaskArg} (h : taskArg (dispatcherPc e) = some arg) :
    ∃ d task, e = some (.called d task) ∧ task.arg = arg := by
  unfold dispatcherPc at h
  split at h
  · exact ⟨_, _, rfl, Option.some.inj h⟩
  · cases h

/-- `TaskInv` holds in every state of a run. -/
theorem taskInv_of_run {tr : List (Event n)} {s : State n}
    (h : (machine n capacity hcap).RunIf AllocationsSucceed tr s) : TaskInv s := by
  refine invariant_of_run (I := fun _ s => TaskInv s) ?_ ?_ ?_ (fun _ _ _ hinv => hinv) h
  · intro t arg harg
    cases harg
  · intro tr s b pool t pc e _ hinv hstep _ _
    cases hstep with
    | @dispatcher d sh pc e hidle hf =>
        obtain ⟨hrunning, hcalled, -⟩ := dispatcherFunction_running hf
        refine forall_update (P := fun (t' : Tid n) pc' => ∀ arg, taskArg pc' = some arg →
          ∃ d' task, t' = .dispatcher d' ∧ Function.update s.pool.dispatcher d pc d' = .running task ∧
          task.arg = arg) ?_ ?_
        · intro arg harg
          obtain ⟨d', task, rfl, rfl⟩ := called_of_dispatcherPc harg
          obtain rfl := hcalled d' task rfl
          refine ⟨d', task, rfl, ?_, rfl⟩
          rw [Function.update_self]
          exact (hrunning task).mpr rfl
        · intro t' ht' arg harg
          obtain ⟨d', task, rfl, hrun, htask⟩ := hinv t' arg harg
          have hne : d' ≠ d := fun heq => ht' (by rw [heq])
          exact ⟨d', task, rfl, by rw [Function.update_of_ne hne]; exact hrun, htask⟩
    | @client c move sh pc e pc₀ hf hpc =>
        refine forall_update (P := fun (t' : Tid n) pc' => ∀ arg, taskArg pc' = some arg →
          ∃ d' task, t' = .dispatcher d' ∧ s.pool.dispatcher d' = .running task ∧ task.arg = arg) ?_
          fun t' _ => hinv t'
        intro arg harg
        rcases hpc with ⟨_, -, -, rfl⟩ | ⟨-, -, rfl⟩ | ⟨-, rfl⟩
        · cases harg
        · cases harg
        · split at harg <;> cases harg
  · intro tr s t sh pc e _ hinv hstep
    refine forall_update (P := fun (t' : Tid n) pc' => ∀ arg, taskArg pc' = some arg →
      ∃ d' task, t' = .dispatcher d' ∧ s.pool.dispatcher d' = .running task ∧ task.arg = arg) ?_
      fun t' _ => hinv t'
    intro arg harg
    cases hstep.publishStep with
    | call c name content ht hpc hpc' he hid hnext =>
        rw [hpc'] at harg
        cases harg
    | other hpool he hpc hpc' harg₀ harg' htask hid hnext => exact hinv t arg (htask arg harg)

/-- Two threads that run the task of the same publish are the same thread. -/
theorem task_thread_unique {tr : List (Event n)} {s : State n}
    (h : (machine n capacity hcap).RunIf AllocationsSucceed tr s) {t t' : Tid n}
    {arg arg' : PublisherTaskArg} (ht : taskArg (s.pc t) = some arg)
    (ht' : taskArg (s.pc t') = some arg') (heq : arg.publish = arg'.publish) : t = t' := by
  have hpool := poolRun_of_run h
  obtain ⟨d, task, rfl, hd, rfl⟩ := taskInv_of_run h t arg ht
  obtain ⟨d', task', rfl, hd', rfl⟩ := taskInv_of_run h t' arg' ht'
  have hmem := mem_enqueuedTasks_of_called hpool (mem_calledTasks_of_running hpool hd)
  have hmem' := mem_enqueuedTasks_of_called hpool (mem_calledTasks_of_running hpool hd')
  obtain rfl := (publishInv_of_run h).task_unique hmem hmem' heq
  rw [running_unique hpool hd hd']

end

end Miez.Proofs.MessageBroker
